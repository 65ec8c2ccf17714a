import SchemaMigration.World
import SchemaMigration.Files.Directory
import Mathlib.Data.List.Basic

/-!
# New files

What becomes of a file tree when a migration file is created in it. Directories are made on the way, and stay if the
file cannot be created (`SameFiles`); the file itself is put where nothing stood, can be read back (`read_create`), and
leaves everything else as it is (`Extends`).
-/

namespace SchemaMigration

namespace FileTree

variable {t t' t'' : FileTree} {place other target : Place} {node : FileNode} {path content : String}

/-! ## Putting nodes -/

theorem node?_put_self (h : place ≠ []) : (t.put place node).node? place = some node := by
  have hplace : place.isEmpty = false := by simpa using h
  have hold : (t.nodes.filter (·.1 != place)).lookup place = none := by
    rw [List.lookup_eq_none_iff]
    intro entry hentry
    simpa [bne_comm] using (List.mem_filter.1 hentry).2
  simp [node?, put, hplace, List.lookup_append, hold]

/-- A filter that looks at places keeps what stands at those it keeps. -/
theorem lookup_filter {p : Place → Bool} (h : p other = true) (nodes : List (Place × FileNode)) :
    (nodes.filter fun entry => p entry.1).lookup other = nodes.lookup other := by
  induction nodes with
  | nil => rfl
  | cons entry nodes ih =>
    obtain ⟨key, value⟩ := entry
    by_cases hother : other = key
    · subst hother
      simp [h]
    · have hne : (other == key) = false := beq_eq_false_iff_ne.2 hother
      cases hkey : p key <;> simp [hkey, List.lookup_cons, hne, ih]

theorem node?_put_of_ne (h : other ≠ place) : (t.put place node).node? other = t.node? other := by
  have hlast : List.lookup other [(place, node)] = none := by simp [List.lookup_cons, beq_eq_false_iff_ne.2 h]
  have hold := lookup_filter (p := (· != place)) (bne_iff_ne.2 h) t.nodes
  simp [node?, put, List.lookup_append, hold, hlast]

/-- There is always something at the root. -/
theorem ne_nil_of_node?_eq_none (h : t.node? place = none) : place ≠ [] := by
  rintro rfl
  cases h

/-! ## Trees with more in them -/

/-- All that stands in the one tree stands in the other. -/
def Extends (t t' : FileTree) : Prop :=
  ∀ place node, t.node? place = some node → t'.node? place = some node

/-- The trees hold the same files, and the second one all directories of the first. -/
structure SameFiles (t t' : FileTree) : Prop where
  keeps : t.Extends t'
  adds : ∀ place node, t'.node? place = some node → node ≠ .directory → t.node? place = some node

theorem SameFiles.refl (t : FileTree) : t.SameFiles t :=
  ⟨fun _ _ h => h, fun _ _ h _ => h⟩

theorem SameFiles.trans (h : t.SameFiles t') (h' : t'.SameFiles t'') : t.SameFiles t'' :=
  ⟨fun place node hnode => h'.keeps place node (h.keeps place node hnode),
    fun place node hnode hne => h.adds place node (h'.adds place node hnode hne) hne⟩

theorem extends_put (h : t.node? place = none) (node : FileNode) : t.Extends (t.put place node) := by
  intro other found hfound
  have hne : other ≠ place := by
    rintro rfl
    cases h.symm.trans hfound
  rwa [node?_put_of_ne hne]

theorem sameFiles_put_directory (h : t.node? place = none) : t.SameFiles (t.put place .directory) := by
  refine ⟨extends_put h _, fun other found hfound hne => ?_⟩
  by_cases hother : other = place
  · rw [hother, node?_put_self (ne_nil_of_node?_eq_none h)] at hfound
    exact absurd (Option.some_inj.1 hfound).symm hne
  · rwa [node?_put_of_ne hother] at hfound

theorem sameFiles_createDirectoriesFrom (t : FileTree) (place : Place) (names : List String) :
    t.SameFiles (t.createDirectoriesFrom place names).2 := by
  induction names generalizing t place with
  | nil => exact .refl t
  | cons name names ih =>
    rw [createDirectoriesFrom]
    split
    · exact .refl t
    · split
      · exact ih _ _
      · exact .refl t
      · next hnone => exact (sameFiles_put_directory hnone).trans (ih _ _)

/-- Making directories touches no file, also if it fails halfway. -/
theorem sameFiles_createDirectories (t : FileTree) (path : String) : t.SameFiles (t.createDirectories path).2 := by
  unfold createDirectories
  split
  · exact .refl t
  · split
    · exact .refl t
    · exact sameFiles_createDirectoriesFrom t [] (Path.names path)

/-! ## Paths -/

/-- A name leads from one place to the next, if there is a directory at the first. -/
def Steps (place : Place) (name : String) (next : Place) : Prop :=
  (name = "." ∧ next = place) ∨ (name = ".." ∧ next = place.dropLast) ∨
    (name ≠ "." ∧ name ≠ ".." ∧ name.utf8ByteSize ≤ longestName ∧ next = place ++ [name])

/-- A path is followed name by name, from directory to directory. -/
theorem follow_cons_eq_ok_iff {name : String} {names : List String} :
    t.follow place (name :: names) = .ok target ↔
      (name = "" ∧ t.follow place names = .ok target) ∨
        (name ≠ "" ∧ t.node? place = some .directory ∧
          ∃ next, Steps place name next ∧ t.follow next names = .ok target) := by
  by_cases hempty : name = ""
  · subst hempty
    have hfollow : t.follow place ("" :: names) = t.follow place names := rfl
    simp [hfollow]
  rw [follow, if_neg (by simpa using hempty)]
  cases hnode : t.node? place with
  | none => simp [hempty]
  | some node =>
    cases node with
    | text | octets | database => simp [hempty]
    | directory =>
      by_cases hdot : name = "."
      · simp [hdot, Steps]
      by_cases hup : name = ".."
      · simp [hup, Steps]
      by_cases hlong : longestName < name.utf8ByteSize
      · simp [hempty, hdot, hup, hlong, Steps, Nat.not_le_of_lt hlong]
      · simp [hempty, hdot, hup, hlong, Steps, Nat.le_of_not_lt hlong]

/-- A path leads to the same place in a tree with more in it. -/
theorem Extends.follow (h : t.Extends t') {names : List String} (hfollow : t.follow place names = .ok target) :
    t'.follow place names = .ok target := by
  induction names generalizing place with
  | nil => exact hfollow
  | cons name names ih =>
    refine follow_cons_eq_ok_iff.2 ?_
    rcases follow_cons_eq_ok_iff.1 hfollow with ⟨rfl, hrest⟩ | ⟨hname, hnode, next, hstep, hrest⟩
    · exact .inl ⟨rfl, ih hrest⟩
    · exact .inr ⟨hname, h place _ hnode, next, hstep, ih hrest⟩

/-- A path that can lead to a place: a relative one, neither empty nor too long, without a NUL. -/
structure Resolvable (path : String) : Prop where
  noNul : path.toList.any (·.toNat == 0) = false
  ne_empty : path ≠ ""
  relative : path.startsWith "/" = false
  length_le : path.utf8ByteSize ≤ longestPath

theorem resolve_eq_ok_iff :
    t.resolve path = .ok target ↔ Resolvable path ∧ t.follow [] (Path.names path) = .ok target := by
  constructor
  · intro h
    unfold resolve at h
    split at h
    · cases h
    next hnul =>
    split at h
    · cases h
    next hroot =>
    split at h
    · cases h
    next hlong =>
    simp only [Bool.or_eq_true, beq_iff_eq, not_or, Bool.not_eq_true] at hnul hroot
    exact ⟨⟨hnul, hroot.1, hroot.2, Nat.le_of_not_lt hlong⟩, h⟩
  · rintro ⟨⟨hnul, hempty, hrelative, hlength⟩, h⟩
    have hroot : (path == "" || path.startsWith "/") = false := by
      rw [hrelative, Bool.or_false, beq_eq_false_iff_ne]
      exact hempty
    rw [resolve, hnul, hroot, if_neg Bool.false_ne_true, if_neg Bool.false_ne_true, if_neg (Nat.not_lt_of_le hlength)]
    exact h

theorem Extends.resolve (h : t.Extends t') (hresolve : t.resolve path = .ok target) :
    t'.resolve path = .ok target := by
  obtain ⟨hpath, hfollow⟩ := resolve_eq_ok_iff.1 hresolve
  exact resolve_eq_ok_iff.2 ⟨hpath, h.follow hfollow⟩

/-! ## Creating files -/

theorem create_eq_ok (h : t.create path node = .ok t') :
    ∃ place, t.resolve path = .ok place ∧ t.node? place = none ∧ t' = t.put place node := by
  unfold create at h
  cases hresolve : t.resolve path with
  | error e =>
    rw [hresolve] at h
    cases h
  | ok place =>
    rw [hresolve] at h
    cases hnode : t.node? place with
    | some found =>
      simp only [bind, Except.bind, hnode, Option.isSome_some] at h
      cases h
    | none =>
      simp only [bind, Except.bind, hnode, Option.isSome_none] at h
      cases h
      exact ⟨place, rfl, hnode, rfl⟩

theorem create_of_resolve (hresolve : t.resolve path = .ok place) (hnone : t.node? place = none) :
    t.create path node = .ok (t.put place node) := by
  rw [create, hresolve]
  simp only [bind, Except.bind, hnone, Option.isSome_none]
  rfl

theorem extends_create (h : t.create path node = .ok t') : t.Extends t' := by
  obtain ⟨place, -, hnone, rfl⟩ := create_eq_ok h
  exact extends_put hnone node

/-- Where a file was created, none can be created any more. -/
theorem create_again {other : FileNode} (h : t.create path node = .ok t') (h' : t'.Extends t'') :
    t''.create path other = .error .exists := by
  have hextends := extends_create h
  obtain ⟨place, hresolve, hnone, rfl⟩ := create_eq_ok h
  have hthere : t''.node? place = some node := h' _ _ (node?_put_self (ne_nil_of_node?_eq_none hnone))
  rw [create, h'.resolve (hextends.resolve hresolve)]
  simp only [bind, Except.bind, hthere, Option.isSome_some]
  rfl

/-- A new file holds what was written to it. -/
theorem read_create (h : t.create path (.text content) = .ok t') : t'.read path = .ok content := by
  have hextends := extends_create h
  obtain ⟨place, hresolve, hnone, rfl⟩ := create_eq_ok h
  have hfind : (t.put place (.text content)).find path = .ok (.text content) := by
    unfold find
    rw [hextends.resolve hresolve]
    simp only [bind, Except.bind, node?_put_self (ne_nil_of_node?_eq_none hnone)]
    rfl
  rw [read, hfind]
  rfl

end FileTree

/-! ## Creating migration files -/

theorem World.run_createDirectories_bind {α : Type} (world : World) (path : String)
    (f : Except FileError Unit → Program Host α) :
    world.run (Host.createDirectories path >>= f) =
      World.run { world with files := (world.files.createDirectories path).2 }
        (f (world.files.createDirectories path).1) := rfl

theorem World.run_create_bind {α : Type} (world : World) (path content : String)
    (f : Except FileError Unit → Program Host α) :
    world.run (Host.create path content >>= f) =
      match world.files.create path (.text content) with
      | .ok files => World.run { world with files } (f (.ok ()))
      | .error e => world.run (f (.error e)) := by
  have hanswer : World.answer (.create path content) world =
      match world.files.create path (.text content) with
      | .ok files => (Except.ok (), { world with files })
      | .error e => (Except.error e, world) := rfl
  show World.run (World.answer (.create path content) world).2 (f (World.answer (.create path content) world).1) = _
  rw [hanswer]
  cases world.files.create path (.text content) <;> rfl

/-- A migration file cannot be created, and no file is touched; or it is created next to what was there. -/
theorem Directory.create_cases (d : Directory) (name content : String) (world : World) :
    (∃ e, (world.run (d.create name content)).1 = .error e ∧
        world.files.SameFiles (world.run (d.create name content)).2.files) ∨
      ((world.run (d.create name content)).1 = .ok (d.filePath name) ∧
        world.files.Extends (world.run (d.create name content)).2.files ∧
        (world.run (d.create name content)).2.files.read (d.filePath name) = .ok content) := by
  have hdirectories := world.files.sameFiles_createDirectories d.path
  rw [Directory.create, World.run_createDirectories_bind]
  generalize world.files.createDirectories d.path = created at hdirectories ⊢
  obtain ⟨result, files⟩ := created
  cases result with
  | error e => exact .inl ⟨_, rfl, hdirectories⟩
  | ok =>
    simp only [World.run_create_bind]
    cases hcreate : files.create (d.filePath name) (.text content) with
    | ok files' =>
      have hextends := FileTree.extends_create hcreate
      exact .inr ⟨rfl, fun place node h => hextends place node (hdirectories.keeps place node h),
        FileTree.read_create hcreate⟩
    | error e => cases e <;> exact .inl ⟨_, rfl, hdirectories⟩

end SchemaMigration
