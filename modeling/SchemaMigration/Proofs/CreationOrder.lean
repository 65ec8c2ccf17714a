import SchemaMigration.Proofs.DryRuns
import SchemaMigration.Proofs.FreeNames
import SchemaMigration.Proofs.NameOrder
import SchemaMigration.Proofs.NewDirectories

/-!
# Migrations of one second

Migrations that are created one after another in one second under one name get the base name and then the numbers from
two on: each creation finds exactly those before it (`FileTree.HoldsFirst`, `Creations.holdsFirst`). Numbers are not
padded, so names sort like their numbers up to nine only (`Naming.sublist_candidates_iff`). A scan lists the migrations,
and an upgrade goes through them, in the order in which they were created exactly if they are nine at most
(`creations_keep_order_iff`).
-/

namespace SchemaMigration

/-! ## Trees with directories and files -/

namespace FileTree

variable {t t' : FileTree} {place target : Place} {path : String} {names : List String}

/-- What leads to a directory starts at one. -/
theorem node?_of_follow (hfollow : t.follow place names = .ok target) (h : t.node? target = some .directory) :
    t.node? place = some .directory := by
  induction names with
  | nil =>
    obtain rfl : place = target := Except.ok.inj hfollow
    exact h
  | cons name names ih =>
    rcases follow_cons_eq_ok_iff.1 hfollow with ⟨-, hrest⟩ | ⟨-, hnode, -⟩
    · exact ih hrest
    · exact hnode

theorem createDirectoriesFrom_eq_self (hfollow : t.follow place names = .ok target)
    (h : t.node? target = some .directory) : t.createDirectoriesFrom place names = (.ok (), t) := by
  induction names generalizing place with
  | nil => rfl
  | cons name names ih =>
    rw [← List.singleton_append, follow_append] at hfollow
    rw [createDirectoriesFrom]
    cases hnext : t.follow place [name] with
    | error e =>
      rw [hnext] at hfollow
      cases hfollow
    | ok next =>
      rw [hnext] at hfollow
      have hrest : t.follow next names = .ok target := hfollow
      simp only [node?_of_follow hrest h]
      exact ih hrest

/-- Nothing is made where there is a directory. -/
theorem IsDirectoryAt.createDirectories_eq (h : t.IsDirectoryAt path place) :
    t.createDirectories path = (.ok (), t) := by
  obtain ⟨⟨hnul, -, hrelative, -⟩, hfollow⟩ := resolve_eq_ok_iff.1 h.1
  rw [createDirectories, hnul, hrelative, if_neg Bool.false_ne_true, if_neg Bool.false_ne_true]
  exact createDirectoriesFrom_eq_self hfollow h.2

section

variable {content : String} (hnone : t.node? place = none)

include hnone

/-- No path leads through a file. -/
theorem follow_put_text {start : Place} :
    (t.put place (.text content)).follow start names = .ok target ↔ t.follow start names = .ok target := by
  refine ⟨fun h => ?_, fun h => (extends_put hnone _).follow h⟩
  induction names generalizing start with
  | nil => exact h
  | cons name names ih =>
    refine follow_cons_eq_ok_iff.2 ?_
    rcases follow_cons_eq_ok_iff.1 h with ⟨rfl, hrest⟩ | ⟨hname, hnode, next, hstep, hrest⟩
    · exact .inl ⟨rfl, ih hrest⟩
    · have hne : start ≠ place := by
        rintro rfl
        rw [node?_put_self (ne_nil_of_node?_eq_none hnone)] at hnode
        cases hnode
      rw [node?_put_of_ne hne] at hnode
      exact .inr ⟨hname, hnode, next, hstep, ih hrest⟩

/-- A new file is there, and everything else as before. -/
theorem kind?_put_text (path : String) :
    (t.put place (.text content)).kind? path =
      if t.resolve path = .ok place then some .file else t.kind? path := by
  have hresolve (target : Place) :
      (t.put place (.text content)).resolve path = .ok target ↔ t.resolve path = .ok target := by
    rw [resolve_eq_ok_iff, resolve_eq_ok_iff, follow_put_text hnone]
  refine Option.ext fun kind => ?_
  rw [kind?_eq_some_iff]
  simp only [hresolve]
  split
  · next hplace =>
    simp [hplace, node?_put_self (ne_nil_of_node?_eq_none hnone), FileNode.kind]
  · next hplace =>
    rw [kind?_eq_some_iff]
    refine exists_congr fun target => exists_congr fun node => and_congr_right fun htarget => ?_
    have hne : target ≠ place := by
      rintro rfl
      exact hplace htarget
    rw [node?_put_of_ne hne]

end

theorem PlacesUnique.put (h : t.PlacesUnique) (place : Place) (node : FileNode) : (t.put place node).PlacesUnique := by
  have hold : ((t.nodes.filter (·.1 != place)).map (·.1)).Nodup := List.Nodup.sublist (List.filter_sublist.map _) h
  show ((t.nodes.filter (·.1 != place) ++ [(place, node)]).map (·.1)).Nodup
  rw [List.map_append, List.map_singleton]
  refine List.nodup_append.2 ⟨hold, List.nodup_singleton _, ?_⟩
  rintro other hother _ hplace rfl
  obtain ⟨entry, hentry, rfl⟩ := List.mem_map.1 hother
  exact absurd (List.mem_singleton.1 hplace) (bne_iff_ne.1 (List.mem_filter.1 hentry).2)

theorem PlacesUnique.createDirectoriesFrom (h : t.PlacesUnique) (place : Place) (names : List String) :
    (t.createDirectoriesFrom place names).2.PlacesUnique := by
  induction names generalizing t place with
  | nil => exact h
  | cons name names ih =>
    rw [FileTree.createDirectoriesFrom]
    split
    · exact h
    · split
      · exact ih h _
      · exact h
      · exact ih (h.put _ _) _

theorem PlacesUnique.createDirectories (h : t.PlacesUnique) (path : String) :
    (t.createDirectories path).2.PlacesUnique := by
  unfold FileTree.createDirectories
  split
  · exact h
  · split
    · exact h
    · exact h.createDirectoriesFrom [] _

end FileTree

/-! ## The order of the names -/

namespace Naming

variable {base : List Char} {n : Nat}

theorem ofList_lt {s t : List Char} (h : s < t) : String.ofList s < String.ofList t := by
  show (String.ofList s).toList < (String.ofList t).toList
  rwa [String.toList_ofList, String.toList_ofList]

/-- The numbers up to nine keep the order. -/
theorem candidate_lt {i j : Nat} (hij : i < j) (hj : j < 9) : candidate base i < candidate base j := by
  have hdigit : ∀ k < 10, Text.natText k = [k.digitChar] := fun k hk => Nat.toDigits_of_lt_base hk
  obtain ⟨j, rfl⟩ : ∃ l, j = l + 1 := ⟨j - 1, by omega⟩
  cases i with
  | zero =>
    have hshorter : base ++ [] < base ++ '-' :: Text.natText (j + 2) := List.append_left_lt (.nil ..)
    rw [List.append_nil] at hshorter
    exact ofList_lt hshorter
  | succ i =>
    have hprecedes : Text.Precedes (base ++ '-' :: Text.natText (i + 2)) (base ++ '-' :: Text.natText (j + 2)) := by
      rw [hdigit _ (by omega), hdigit _ (by omega)]
      exact (Text.Precedes.tail (Text.precedes_digit (by omega) (by omega))).after base
    exact ofList_lt hprecedes.lt

/-- Ten comes before two. -/
theorem candidate_nine_lt (base : List Char) : candidate base 9 < candidate base 1 := by
  have hten : Text.Precedes (Text.natText 10) (Text.natText 2) := .head (by decide) (by decide)
  have hprecedes : Text.Precedes (base ++ '-' :: Text.natText 10) (base ++ '-' :: Text.natText 2) :=
    (Text.Precedes.tail hten).after base
  exact ofList_lt hprecedes.lt

/-- Among sorted names, the base name and those with numbers stand in their order exactly if they are nine at most. -/
theorem sublist_candidates_iff {listed : List String} (hsorted : listed.Pairwise (· ≤ ·))
    (hlisted : ∀ i < n, candidate base i ∈ listed) :
    ((List.range n).map (candidate base)).Sublist listed ↔ n ≤ 9 := by
  constructor
  · intro h
    by_contra hn
    have hnames := List.pairwise_iff_getElem.1 (hsorted.sublist h) 1 9 (by simp; omega) (by simp; omega) (by decide)
    rw [List.getElem_map, List.getElem_map, List.getElem_range, List.getElem_range] at hnames
    exact String.not_le.2 (candidate_nine_lt base) hnames
  · intro hn
    have hordered : ((List.range n).map (candidate base)).Pairwise (· < ·) := by
      refine List.pairwise_map.2 (List.pairwise_lt_range.imp_of_mem fun _ hj hlt => ?_)
      exact candidate_lt hlt (Nat.lt_of_lt_of_le (List.mem_range.1 hj) hn)
    have hsubset : (List.range n).map (candidate base) ⊆ listed := by
      intro name hname
      obtain ⟨i, hi, rfl⟩ := List.mem_map.1 hname
      exact hlisted i (List.mem_range.1 hi)
    have hnodup : ((List.range n).map (candidate base)).Nodup := hordered.imp fun h => String.ne_of_lt h
    exact List.sublist_of_subperm_of_pairwise (List.subperm_of_subset hnodup hsubset)
      (hordered.imp fun h => String.not_lt.1 (String.lt_asymm h)) hsorted

theorem isPlain_candidate (now : Instant) (user : Option String) (i : Nat) :
    IsPlain (candidate (baseName now user) i) := by
  cases i with
  | zero => exact isPlain_baseName now user
  | succ i => exact isPlain_numbered now user (i + 2)

/-- Only the second counts. -/
theorem baseName_congr {t u : Instant} (h : t.seconds = u.seconds) (user : Option String) :
    baseName t user = baseName u user := by
  obtain ⟨seconds, _⟩ := t
  obtain ⟨_, _⟩ := u
  obtain rfl : seconds = _ := h
  rfl

end Naming

/-! ## Creating one migration -/

theorem Directory.run_create {d : Directory} {name content : String} {world : World} {t files : FileTree}
    (hmade : world.files.createDirectories d.path = (.ok (), t))
    (hcreate : t.create (d.filePath name) (.text content) = .ok files) :
    world.run (d.create name content) = (.ok (d.filePath name), { world with files }) := by
  rw [create, World.run_createDirectories_bind, hmade]
  simp only [World.run_create_bind, hcreate]
  rfl

/-- A file that was created is where it was to be, in a directory that was made. -/
theorem Directory.exists_of_run_create {d : Directory} {name content path : String} {world : World}
    (h : (world.run (d.create name content)).1 = .ok path) :
    path = d.filePath name ∧
      (world.files.createDirectories d.path).2.create path (.text content) =
        .ok (world.run (d.create name content)).2.files := by
  rw [create, World.run_createDirectories_bind] at h ⊢
  generalize world.files.createDirectories d.path = made at h ⊢
  obtain ⟨result, files⟩ := made
  cases result with
  | error e => cases h
  | ok =>
    simp only [World.run_create_bind] at h ⊢
    cases hcreate : files.create (d.filePath name) (.text content) with
    | error e =>
      rw [hcreate] at h
      cases e <;> cases h
    | ok files' =>
      rw [hcreate] at h
      obtain rfl : d.filePath name = path := Except.ok.inj h
      exact ⟨rfl, hcreate⟩

section

open Naming (baseName candidate)
open Session (askTaken)

variable {δ : Type} {w : Workspace} {server : Server δ} {s s' : Deployment δ} {user : Option String} {path : String}

namespace Deployment

/-- The programs of a session on a deployment. -/
def runner (w : Workspace) (server : Server δ) : Naming.Runner (Program Session) (Deployment δ) where
  run p s := s.runProgram w server p
  run_pure _ _ := rfl
  run_bind p f s := s.runProgram_bind w server p f

/-- A new name comes after names that are taken, and is free itself unless it has the greatest number. -/
theorem exists_newName_eq (w : Workspace) (server : Server δ) (s : Deployment δ) (user : Option String) :
    ∃ l, s.newName w server user = candidate (baseName (server.clock s.sent.length) user) l ∧
      (∀ j < l, s.isTaken w (candidate (baseName (server.clock s.sent.length) user) j) = true) ∧
      (s.isTaken w (candidate (baseName (server.clock s.sent.length) user) l) = false ∨ l = Naming.greatestNumber) := by
  have hask : ∀ (asked : List String) (name : String),
      (runner w server).run (askTaken name) ((fun _ => s) asked) = (s.isTaken w name, (fun _ => s) (asked ++ [name])) :=
    fun _ name => s.runProgram_askTaken w server name
  obtain ⟨l, n, htaken, hrun, hend⟩ := (runner w server).exists_run_choose hask (server.clock s.sent.length) user
  exact ⟨l, congrArg Prod.fst hrun, htaken, hend.imp And.right And.right⟩

end Deployment

namespace Planner

variable {p : Planner}

/-- Writing that ends well has put a file under the new name. -/
theorem exists_of_run_write (hw : w.PrintsLog) {query : Reversible String}
    (h : s.run w server (p.write user query) = (.ok path, s')) :
    path = w.files.filePath (s.newName w server user) ∧ ∃ content files,
      (s.files.createDirectories w.directory).2.create path (.text content) = .ok files ∧ s' = { s with files } := by
  have hchoose := (s.runProgram_choose w server user).2
  generalize s.newName w server user = migration at hchoose ⊢
  obtain ⟨now, _, hnow, h⟩ := Deployment.exists_of_run_bind h
  cases hnow
  have hrun : s.run w server (Action.ofProgram (Naming.choose askTaken (server.clock s.sent.length) user)) =
      (.ok migration, s) := by rw [Deployment.run_ofProgram, hchoose]
  obtain ⟨_, _, hname, h⟩ := Deployment.exists_of_run_bind h
  cases hrun.symm.trans hname
  obtain ⟨content, _, hcontent, h⟩ := Deployment.exists_of_run_bind h
  obtain ⟨-, rfl⟩ := Prod.mk.inj ((Deployment.run_ofExcept _ _).symm.trans hcontent)
  obtain ⟨_, _, hcreate, h⟩ := Deployment.exists_of_run_bind h
  obtain ⟨_, _, hlog, h⟩ := Deployment.exists_of_run_bind h
  cases (Deployment.run_log hw _).symm.trans hlog
  cases h
  obtain ⟨hcreated, rfl⟩ := Prod.mk.inj ((Deployment.run_attempt _ _).symm.trans hcreate)
  obtain ⟨hfile, hfiles⟩ := Directory.exists_of_run_create (Migration.eq_ok_of_mapError hcreated.symm)
  exact ⟨hfile, content, _, hfiles, rfl⟩

/-- A plan that gives a path has written the file there. -/
theorem exists_of_run_plan (hw : w.PrintsLog) {declared observed : Schema}
    (h : s.run w server (p.plan user declared observed) = (.ok (some path), s')) :
    ∃ query, s.run w server (p.write user query) = (.ok path, s') := by
  obtain ⟨query, _, hquery, h⟩ := Deployment.exists_of_run_bind h
  cases (run_query_eq server s hw p declared observed).symm.trans hquery
  cases hsome : p.query? declared observed with
  | none =>
    rw [hsome] at h
    cases (Deployment.run_bind_of_ok (Deployment.run_log hw _)).symm.trans h
  | some query =>
    rw [hsome] at h
    have hmap : (some <$> p.write user query : Action (Option String)) =
        p.write user query >>= fun path => pure (some path) := (bind_pure_comp some (p.write user query)).symm
    replace h : s.run w server (some <$> p.write user query) = (.ok (some path), s') := h
    rw [hmap] at h
    obtain ⟨_, _, hwrite, hpure⟩ := Deployment.exists_of_run_bind h
    cases hpure
    exact ⟨query, hwrite⟩

end Planner

/-! ## Creating one after another -/

/-- A migration is created in a second under a user's name, from a plan or to be filled in; its file is at the path. -/
inductive Creates (w : Workspace) (second : Int) (user : Option String) (s : Deployment δ) (path : String)
    (s' : Deployment δ) : Prop
  | planned (server : Server δ) (hsecond : (server.clock s.sent.length).seconds = second) (p : Planner)
    (declared observed : Schema) (h : s.run w server (p.plan user declared observed) = (.ok (some path), s'))
  | empty (server : Server δ) (hsecond : (server.clock s.sent.length).seconds = second) (p : Planner)
    (h : s.run w server (p.planEmpty user) = (.ok path, s'))

/-- Migrations are created one after another, in one second and under one name; their files are at the paths. -/
inductive Creations (w : Workspace) (second : Int) (user : Option String) :
    Deployment δ → List String → Deployment δ → Prop
  | start {s : Deployment δ} : Creations w second user s [] s
  | next {s s' s'' : Deployment δ} {paths : List String} {path : String} (hbefore : Creations w second user s paths s')
    (h : Creates w second user s' path s'') : Creations w second user s (paths ++ [path]) s''

namespace FileTree

/-- The directory, once it is made, holds the files of the first so many names of a base and none of the others. -/
structure HoldsFirst (t : FileTree) (w : Workspace) (base : List Char) (n : Nat) : Prop where
  isSome_iff : ∀ i, ((t.createDirectories w.directory).2.kind? (w.files.filePath (candidate base i))).isSome ↔ i < n
  listed : n ≠ 0 → (t.createDirectories w.directory).2 = t ∧
    ∃ files, w.filesIn t = .ok files ∧ ∀ i < n, candidate base i ∈ files.map MigrationFile.name

/-- The directory, once it is made, holds no file of the base name, with a number or without. -/
def HoldsNone (t : FileTree) (w : Workspace) (base : List Char) : Prop :=
  ∀ i, (t.createDirectories w.directory).2.kind? (w.files.filePath (candidate base i)) = none

theorem HoldsNone.holdsFirst {t : FileTree} {base : List Char} (h : t.HoldsNone w base) : t.HoldsFirst w base 0 where
  isSome_iff i := by simp [h i]
  listed hzero := absurd rfl hzero

/-- No name behind those that are held is taken. -/
theorem HoldsFirst.le_of_isTaken {base : List Char} {l n : Nat} (h : s.files.HoldsFirst w base n)
    (htaken : ∀ j < l, s.isTaken w (candidate base j) = true) : l ≤ n := by
  refine Nat.le_of_not_lt fun hlt => ?_
  obtain ⟨kind, hkind⟩ := Option.isSome_iff_exists.1 (htaken n hlt)
  have hthere := (s.files.sameFiles_createDirectories w.directory).keeps.kind? hkind
  exact Nat.lt_irrefl n ((h.isSome_iff n).1 (Option.isSome_iff_exists.2 ⟨kind, hthere⟩))

theorem kind?_eq_none {t : FileTree} {place : Place} (hresolve : t.resolve path = .ok place)
    (hnone : t.node? place = none) : t.kind? path = none := by
  refine Option.eq_none_iff_forall_ne_some.2 fun kind hkind => ?_
  obtain ⟨_, node, hplace, hnode, -⟩ := kind?_eq_some_iff.1 hkind
  cases hresolve.symm.trans hplace
  cases hnone.symm.trans hnode

end FileTree

namespace Creates

variable {now : Instant}

/-- What a creation comes to: its name comes after names that are taken, and the file is new. -/
theorem exists_create (hw : w.PrintsLog) (h : Creates w now.seconds user s path s') :
    ∃ l content files, path = w.files.filePath (candidate (baseName now user) l) ∧
      (∀ j < l, s.isTaken w (candidate (baseName now user) j) = true) ∧
      (s.files.createDirectories w.directory).2.create path (.text content) = .ok files ∧ s' = { s with files } := by
  have hwrite : ∃ (server : Server δ) (p : Planner) (query : Reversible String),
      (server.clock s.sent.length).seconds = now.seconds ∧ s.run w server (p.write user query) = (.ok path, s') := by
    cases h with
    | planned server hsecond p declared observed h =>
      obtain ⟨query, hwrite⟩ := Planner.exists_of_run_plan hw h
      exact ⟨server, p, query, hsecond, hwrite⟩
    | empty server hsecond p h => exact ⟨server, p, {}, hsecond, h⟩
  obtain ⟨server, p, query, hsecond, hwrite⟩ := hwrite
  obtain ⟨hpath, content, files, hcreate, hs'⟩ := Planner.exists_of_run_write hw hwrite
  obtain ⟨l, hname, htaken, -⟩ := s.exists_newName_eq w server user
  rw [Naming.baseName_congr hsecond] at hname htaken
  rw [hname] at hpath
  exact ⟨l, content, files, hpath, htaken, hcreate, hs'⟩

/-- Where the first so many names are there, the next one is created. -/
theorem holdsFirst (hw : w.PrintsLog) (hdir : w.directory ≠ "") {n : Nat}
    (hholds : s.files.HoldsFirst w (baseName now user) n) (h : Creates w now.seconds user s path s') :
    path = w.files.filePath (candidate (baseName now user) n) ∧
      s'.files.HoldsFirst w (baseName now user) (n + 1) := by
  obtain ⟨l, content, files, hpath, htaken, hcreate, rfl⟩ := h.exists_create hw
  have hplain := Naming.isPlain_candidate now user
  have hinj := Naming.candidate_injective (baseName now user)
  generalize baseName now user = base at *
  obtain ⟨target, htarget, hnone, hput⟩ := FileTree.create_eq_ok hcreate
  obtain rfl : l = n := by
    refine Nat.le_antisymm (hholds.le_of_isTaken htaken) (Nat.le_of_not_lt fun hlt => ?_)
    have hsome := (hholds.isSome_iff l).2 hlt
    rw [← hpath, FileTree.kind?_eq_none htarget hnone] at hsome
    cases hsome
  subst hpath
  refine ⟨rfl, ?_⟩
  have hfile (i : Nat) := isFileName_of_noSlash (hplain i).noSlash
  obtain ⟨place, hplace, hnode, rfl⟩ := FileTree.resolve_join hdir (hfile l) htarget
  have hdirectory : files.IsDirectoryAt w.directory place :=
    (FileTree.extends_create hcreate).isDirectoryAt ⟨hplace, hnode⟩
  obtain ⟨-, before, after, -, -, hbefore, hafter, lesser, greater, hold, hnew, -⟩ :=
    filesIn_create hdir (hplain l).1 (hplain l).noSlash hcreate
  refine ⟨fun i => ?_, fun _ => ⟨?_, after, hafter, fun i hi => ?_⟩⟩
  · show ((files.createDirectories w.directory).2.kind? _).isSome ↔ _
    rw [hdirectory.createDirectories_eq, hput, FileTree.kind?_put_text hnone]
    by_cases hi : i = l
    · subst hi
      rw [if_pos htarget]
      simp
    · have hother : (s.files.createDirectories w.directory).2.resolve (w.files.filePath (candidate base i)) ≠
          .ok (place ++ [candidate base l ++ "." ++ Directory.extension]) := by
        intro hsame
        obtain ⟨_, -, -, heq⟩ := FileTree.resolve_join hdir (hfile i) hsame
        have hnames := List.singleton_inj.1 (List.append_inj' heq rfl).2
        rw [String.append_left_inj, String.append_left_inj] at hnames
        exact hi (hinj hnames.symm)
      rw [if_neg hother, hholds.isSome_iff]
      omega
  · show (files.createDirectories w.directory).2 = files
    rw [hdirectory.createDirectories_eq]
  · rw [hnew, List.map_append, List.map_cons]
    rcases Nat.lt_or_eq_of_le (Nat.le_of_lt_succ hi) with hlt | rfl
    · obtain ⟨hsame, listed, hlisted, hall⟩ := hholds.listed (by omega)
      rw [hsame, hlisted] at hbefore
      cases hbefore
      have hmem := hall i hlt
      rw [hold, List.map_append, List.mem_append] at hmem
      exact List.mem_append.2 (hmem.imp_right (List.mem_cons_of_mem _))
    · exact List.mem_append_right _ List.mem_cons_self

end Creates

namespace Creations

variable {now : Instant} {paths : List String}

/-- The names that are given one after another, and what the directory holds then. -/
theorem holdsFirst (hw : w.PrintsLog) (hdir : w.directory ≠ "") (hnone : s.files.HoldsNone w (baseName now user))
    (h : Creations w now.seconds user s paths s') :
    paths = ((List.range paths.length).map (candidate (baseName now user))).map w.files.filePath ∧
      s'.files.HoldsFirst w (baseName now user) paths.length := by
  induction h with
  | start => exact ⟨rfl, hnone.holdsFirst⟩
  | @next s' s'' paths path _ h ih =>
    obtain ⟨hpaths, hholds⟩ := ih
    obtain ⟨hpath, hholds'⟩ := h.holdsFirst hw hdir hholds
    rw [List.length_append, List.length_singleton]
    refine ⟨?_, hholds'⟩
    rw [List.range_succ, List.map_append, List.map_append, ← hpaths, hpath]
    rfl

/-- Nothing but files is created, each at a place of its own. -/
theorem keeps (hw : w.PrintsLog) (h : Creations w now.seconds user s paths s') :
    s'.table = s.table ∧ (s.files.PlacesUnique → s'.files.PlacesUnique) := by
  induction h with
  | start => exact ⟨rfl, id⟩
  | next _ h ih =>
    obtain ⟨_, _, _, -, -, hcreate, rfl⟩ := h.exists_create hw
    obtain ⟨_, -, -, rfl⟩ := FileTree.create_eq_ok hcreate
    exact ⟨ih.1, fun hunique => ((ih.2 hunique).createDirectories _).put _ _⟩

end Creations

/-! ## Creations that succeed -/

/-- There may be a migration file of that name in the directory. -/
structure Directory.Fits (d : Directory) (name : String) : Prop where
  resolvable : FileTree.Resolvable (d.filePath name)
  length_le : (name ++ "." ++ Directory.extension).utf8ByteSize ≤ FileTree.longestName

theorem FileTree.IsDirectoryAt.resolve_filePath {t : FileTree} {place : Place} {name : String}
    (h : t.IsDirectoryAt w.directory place) (hdir : w.directory ≠ "") (hslash : '/' ∉ name.toList)
    (hfits : w.files.Fits name) :
    t.resolve (w.files.filePath name) = .ok (place ++ [name ++ "." ++ Directory.extension]) := by
  have hfile := isFileName_of_noSlash hslash
  have hstep : t.follow place [name ++ "." ++ Directory.extension] =
      .ok (place ++ [name ++ "." ++ Directory.extension]) :=
    FileTree.follow_cons_eq_ok_iff.2 (.inr ⟨hfile.ne_empty, h.2, _,
      .inr (.inr ⟨hfile.ne_dot, hfile.ne_dots, hfits.length_le, rfl⟩), rfl⟩)
  refine FileTree.resolve_eq_ok_iff.2 ⟨hfits.resolvable, ?_⟩
  show t.follow [] (Path.names (Path.join w.directory _)) = _
  rw [FileTree.follow_names_join t hdir hfile, (FileTree.resolve_eq_ok_iff.1 h.1).2]
  exact hstep

/-- The directory can be made, and then has room for the next migration, which is created. -/
theorem Creates.exists_of_holdsFirst (server : Server δ) (s : Deployment δ) (hw : w.PrintsLog)
    (hdir : w.directory ≠ "") {n : Nat} {t : FileTree} {place : Place}
    (hmade : s.files.createDirectories w.directory = (.ok (), t))
    (hplace : t.IsDirectoryAt w.directory place)
    (hholds : s.files.HoldsFirst w (baseName (server.clock s.sent.length) user) n) (hn : n ≤ Naming.greatestNumber)
    (hfits : w.files.Fits (candidate (baseName (server.clock s.sent.length) user) n)) :
    ∃ files, Creates w (server.clock s.sent.length).seconds user s
        (w.files.filePath (candidate (baseName (server.clock s.sent.length) user) n)) { s with files } ∧
      files.IsDirectoryAt w.directory place := by
  have hrun := Planner.run_write server s hw (p := {}) rfl user {}
  obtain ⟨l, hname, htaken, hend⟩ := s.exists_newName_eq w server user
  have hplain := (Naming.isPlain_candidate (server.clock s.sent.length) user n).noSlash
  have hcreates {path : String} {s' : Deployment δ}
      (h : s.run w server (({} : Planner).planEmpty user) = (.ok path, s')) :
      Creates w (server.clock s.sent.length).seconds user s path s' := .empty server rfl {} h
  unfold Planner.written at hrun
  rw [hname] at hrun
  generalize baseName (server.clock s.sent.length) user = base at *
  have hle := hholds.le_of_isTaken htaken
  obtain ⟨hsome, hlisted⟩ := hholds
  rw [hmade] at hsome hlisted
  obtain rfl : l = n := by
    refine Nat.le_antisymm hle (Nat.le_of_not_lt fun hlt => ?_)
    rcases hend with hfree | rfl
    · have hthere := (hsome l).2 hlt
      rw [(hlisted (by omega)).1] at hthere
      exact Bool.noConfusion (hfree.symm.trans hthere)
    · omega
  have hresolve := hplace.resolve_filePath hdir hplain hfits
  have hnone : t.node? (place ++ [candidate base l ++ "." ++ Directory.extension]) = none := by
    refine Option.eq_none_iff_forall_ne_some.2 fun node hnode => Nat.lt_irrefl l ((hsome l).1 ?_)
    exact Option.isSome_iff_exists.2 ⟨_, FileTree.kind?_eq_some_iff.2 ⟨_, _, hresolve, hnode, rfl⟩⟩
  generalize String.ofList (Template.migrationText (candidate base l) {}) = content at hrun
  have hcreated : Planner.created w server s (candidate base l) content =
      (.ok (w.files.filePath (candidate base l)), { s.world server with
        files := t.put (place ++ [candidate base l ++ "." ++ Directory.extension]) (.text content) }) :=
    Directory.run_create hmade (FileTree.create_of_resolve hresolve hnone)
  rw [hcreated] at hrun
  exact ⟨_, hcreates hrun, (FileTree.extends_put hnone _).isDirectoryAt hplace⟩

/-- Migrations can be created one after another as long as there is room for their files. -/
theorem Creations.exists_of_fits (server : Server δ) (s : Deployment δ) (user : Option String) (hw : w.PrintsLog)
    (hdir : w.directory ≠ "") {t : FileTree} {place : Place}
    (hmade : s.files.createDirectories w.directory = (.ok (), t)) (hplace : t.IsDirectoryAt w.directory place)
    (hnone : s.files.HoldsNone w (baseName (server.clock s.sent.length) user)) {n : Nat}
    (hn : n ≤ Naming.greatestNumber + 1)
    (hfits : ∀ i < n, w.files.Fits (candidate (baseName (server.clock s.sent.length) user) i)) :
    ∃ files t, Creations w (server.clock s.sent.length).seconds user s
        (((List.range n).map (candidate (baseName (server.clock s.sent.length) user))).map w.files.filePath)
        { s with files } ∧
      files.createDirectories w.directory = (.ok (), t) ∧ t.IsDirectoryAt w.directory place := by
  induction n with
  | zero => exact ⟨s.files, t, .start, hmade, hplace⟩
  | succ n ih =>
    obtain ⟨files, t, hbefore, hmade, hplace⟩ := ih (by omega) fun i hi => hfits i (by omega)
    have hholds := (hbefore.holdsFirst hw hdir hnone).2
    rw [List.length_map, List.length_map, List.length_range] at hholds
    obtain ⟨files', hnext, hplace'⟩ := Creates.exists_of_holdsFirst server { s with files } hw hdir hmade hplace hholds
      (by omega) (hfits n (by omega))
    refine ⟨files', files', ?_, hplace'.createDirectories_eq, hplace'⟩
    rw [List.range_succ, List.map_append, List.map_append]
    exact hbefore.next hnext

/-! ## Main statement -/

/-- Migrations that are created one after another in one second under one name, in a directory that holds no other file
of the base name, are all listed, and they are listed in the order in which they were created exactly if they are nine
at most; and so an upgrade, which goes through those that have no record, goes through them in that order exactly if
they are nine at most. -/
theorem creations_keep_order_iff (now : Instant) {paths : List String} (hw : w.PrintsLog) (hdir : w.directory ≠ "")
    (hnone : s.files.HoldsNone w (baseName now user)) (h : Creations w now.seconds user s paths s') (hne : paths ≠ []) :
    ∃ names files, names = (List.range paths.length).map (candidate (baseName now user)) ∧
      paths = names.map w.files.filePath ∧
      (∀ server : Server δ, s'.run w server Action.files = (.ok files, s')) ∧
      (∀ name ∈ names, name ∈ files.map MigrationFile.name) ∧
      (names.Sublist (files.map MigrationFile.name) ↔ paths.length ≤ 9) ∧
      ∀ server : Server δ, server.KeepsRecords → s.NamesUnique → (∀ name ∈ names, s.record? name = none) →
        ∃ plan done events result s'', s'.run w server (Migration.upgrade false none none) = (result, s'') ∧
          WentThrough server .forward (s'.readied .forward false plan) plan done events result s'' ∧
          (names.Sublist (plan.map Migration.name) ↔ paths.length ≤ 9) := by
  obtain ⟨hpaths, hholds⟩ := h.holdsFirst hw hdir hnone
  obtain ⟨htable, hunique⟩ := h.keeps hw
  obtain ⟨-, files, hfiles, hlisted⟩ := hholds.listed (mt List.length_eq_zero_iff.1 hne)
  have hsorted : (files.map MigrationFile.name).Pairwise (· ≤ ·) := List.pairwise_map.2 (sorted_of_filesIn hfiles)
  refine ⟨_, files, rfl, hpaths, fun server => ?_, ?_, Naming.sublist_candidates_iff hsorted hlisted, ?_⟩
  · rw [Deployment.run_files hw, hfiles]
  · intro name hname
    obtain ⟨i, hi, rfl⟩ := List.mem_map.1 hname
    exact hlisted i (List.mem_range.1 hi)
  intro server hserver hnames hrecords
  have hnames' : s'.NamesUnique := ⟨hunique hnames.files, by rw [htable]; exact hnames.records⟩
  have hselected := Deployment.selected_forward hnames' hfiles none none
  have hplan : Migration.toBeApplied files (s'.table.getD []) none none =
    .ok (Migration.pending files (s'.table.getD [])) := rfl
  obtain ⟨done, events, result, s'', hrun, hwent⟩ := exists_wentThrough (d := .forward) (s := s'.readied .forward false
      (Migration.pending files (s'.table.getD []))) hserver hw (ready_readied (file?_of_mem_toBeApplied hplan))
    (Migration.keysUnique_pending (keysUnique_of_filesIn hnames'.files hfiles))
  refine ⟨_, done, events, result, s'',
    (Deployment.run_of_selected_ok (d := .forward) hserver hw hselected).trans hrun, hwent, ?_⟩
  rw [Migration.names_pending]
  refine Naming.sublist_candidates_iff (hsorted.sublist (List.filter_sublist.map _)) fun i hi => ?_
  obtain ⟨file, hfile, hname⟩ := List.mem_map.1 (hlisted i hi)
  have hrecord := hrecords _ (List.mem_map_of_mem (List.mem_range.2 hi))
  rw [Deployment.record?_eq, ← htable, ← hname] at hrecord
  exact List.mem_map.2 ⟨file, List.mem_filter.2 ⟨hfile, Option.isNone_iff_eq_none.2 hrecord⟩, hname⟩

end

namespace Creations.Sample

open Planner.Sample (workspace server deployment printsLog_workspace)

/-! Migrations to be filled in, created in a deployment without any files. -/

/-- The base name. -/
def base : List Char :=
  "1970-001-00000_x".toList

def now : Instant :=
  { seconds := 0 }

theorem baseName_eq : Naming.baseName now (some "x") = base := by
  decide +kernel

theorem createDirectories_eq : deployment.files.createDirectories workspace.directory =
    (.ok (), ({} : FileTree).put ["migrations"] .directory) := by
  have hnames : Path.names workspace.directory = ["migrations"] := by decide +kernel
  rw [FileTree.createDirectories, if_neg (by decide +kernel), if_neg (by decide +kernel), hnames]
  rfl

theorem isDirectoryAt : (({} : FileTree).put ["migrations"] .directory).IsDirectoryAt workspace.directory
    ["migrations"] :=
  ⟨Migration.eq_ok_of_toOption (by decide +kernel), rfl⟩

theorem holdsNone_deployment (now : Instant) (user : Option String) :
    deployment.files.HoldsNone workspace (Naming.baseName now user) := by
  intro i
  rw [createDirectories_eq]
  refine Option.eq_none_iff_forall_ne_some.2 fun kind hkind => ?_
  obtain ⟨target, node, hresolve, hnode, -⟩ := FileTree.kind?_eq_some_iff.1 hkind
  obtain ⟨place, hplace, -, rfl⟩ := FileTree.resolve_join (by decide)
    (isFileName_of_noSlash (Naming.isPlain_candidate now user i).noSlash) hresolve
  cases isDirectoryAt.1.symm.trans hplace
  rw [FileTree.node?_put_of_ne (by simp)] at hnode
  cases hnode

theorem fits : ∀ i < 10, workspace.files.Fits (Naming.candidate base i) := by
  have hnul : ∀ i < 10, (workspace.files.filePath (Naming.candidate base i)).toList.any (·.toNat == 0) = false := by
    decide +kernel
  have hempty : ∀ i < 10, workspace.files.filePath (Naming.candidate base i) ≠ "" := by decide +kernel
  have hrelative : ∀ i < 10, (workspace.files.filePath (Naming.candidate base i)).startsWith "/" = false := by
    decide +kernel
  have hpath : ∀ i < 10, (workspace.files.filePath (Naming.candidate base i)).utf8ByteSize ≤ FileTree.longestPath := by
    decide +kernel
  have hname : ∀ i < 10, (Naming.candidate base i ++ "." ++ Directory.extension).utf8ByteSize ≤
      FileTree.longestName := by decide +kernel
  exact fun i hi => ⟨⟨hnul i hi, hempty i hi, hrelative i hi, hpath i hi⟩, hname i hi⟩

/-- Ten migrations can be created. -/
theorem exists_creations {n : Nat} (hn : n ≤ 10) :
    ∃ s', Creations workspace now.seconds (some "x") deployment
      (((List.range n).map (Naming.candidate base)).map workspace.files.filePath) s' := by
  obtain ⟨files, _, hcreations, -⟩ := Creations.exists_of_fits server deployment (some "x") (n := n)
    printsLog_workspace (by decide) createDirectories_eq isDirectoryAt (holdsNone_deployment _ _)
    (Nat.le_trans hn (by decide)) fun i hi => baseName_eq ▸ fits i (by omega)
  exact ⟨_, baseName_eq ▸ hcreations⟩

theorem creations_keep_order_iff_nine :
    ∃ (s' : Deployment Unit) (names : List String) (files : List MigrationFile),
      Creations workspace now.seconds (some "x") deployment (names.map workspace.files.filePath) s' ∧
        names.length = 9 ∧ s'.run workspace server Action.files = (.ok files, s') ∧
        names.Sublist (files.map MigrationFile.name) ∧
        ∃ plan done events result s'', s'.run workspace server (Migration.upgrade false none none) = (result, s'') ∧
          WentThrough server .forward (s'.readied .forward false plan) plan done events result s'' ∧
          names.Sublist (plan.map Migration.name) := by
  obtain ⟨s', hcreations⟩ := exists_creations (n := 9) (by decide)
  obtain ⟨names, files, rfl, -, hfiles, -, horder, hupgrade⟩ := creations_keep_order_iff now
    printsLog_workspace (by decide) (holdsNone_deployment _ _) hcreations (by simp)
  obtain ⟨plan, done, events, result, s'', hrun, hwent, hplan⟩ := hupgrade server ⟨fun _ _ => rfl, fun _ => rfl⟩
    ⟨List.nodup_nil, List.nodup_nil⟩ fun _ _ => rfl
  rw [baseName_eq, List.length_map, List.length_map, List.length_range] at horder hplan
  exact ⟨s', _, files, hcreations, rfl, hfiles server, horder.2 (Nat.le_refl 9), plan, done, events, result, s'', hrun,
    hwent, hplan.2 (Nat.le_refl 9)⟩

/-- Of ten migrations, the tenth is listed before the second one. -/
theorem not_creations_listed_in_order :
    ¬ ∀ (w : Workspace) (server : Server Unit) (now : Instant) (user : Option String) (s s' : Deployment Unit)
        (names : List String) (files : List MigrationFile), w.PrintsLog → w.directory ≠ "" →
      s.files.HoldsNone w (Naming.baseName now user) →
        Creations w now.seconds user s (names.map w.files.filePath) s' →
          s'.run w server Action.files = (.ok files, s') → names.Sublist (files.map MigrationFile.name) := by
  intro h
  obtain ⟨s', hcreations⟩ := exists_creations (Nat.le_refl 10)
  obtain ⟨-, hholds⟩ := hcreations.holdsFirst printsLog_workspace (by decide) (holdsNone_deployment _ _)
  obtain ⟨-, files, hfiles, hlisted⟩ := hholds.listed (by decide)
  rw [baseName_eq] at hlisted
  have hscan : s'.run workspace server Action.files = (.ok files, s') := by
    rw [Deployment.run_files printsLog_workspace, hfiles]
  have hsublist := h workspace server now (some "x") deployment s' _ files printsLog_workspace
    (by decide) (holdsNone_deployment _ _) hcreations hscan
  have hsorted := List.pairwise_map.2 (sorted_of_filesIn hfiles)
  exact absurd ((Naming.sublist_candidates_iff hsorted hlisted).1 hsublist) (by decide)

end Creations.Sample

end SchemaMigration
