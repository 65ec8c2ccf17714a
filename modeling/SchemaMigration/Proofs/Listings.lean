import SchemaMigration.Workspace
import SchemaMigration.Proofs.Keyed
import Mathlib.Data.List.Sort

/-!
# What a directory lists

The migration files of a directory in a file tree (`Workspace.filesIn`). Where nothing stands twice at a place, no two
of them have the same name (`keysUnique_of_filesIn`), and they come in the order of their names (`sorted_of_filesIn`).
-/

namespace SchemaMigration

/-- No place of the tree is taken twice. -/
def FileTree.PlacesUnique (t : FileTree) : Prop :=
  (t.nodes.map (·.1)).Nodup

instance (t : FileTree) : Decidable t.PlacesUnique :=
  inferInstanceAs (Decidable (t.nodes.map (·.1)).Nodup)

/-- The migration files of a directory in a file tree, by name. -/
def Workspace.filesIn (w : Workspace) (t : FileTree) : Except MigrationError (List MigrationFile) :=
  match t.kind? w.directory with
  | none => .ok []
  | some .file => .error (.directoryNotFound w.directory)
  | some .directory => ((t.entries w.directory).map w.files.migrationFiles).mapError .file

/-- The script of a migration file. -/
def FileTree.script (t : FileTree) (file : MigrationFile) : Except MigrationError Script := do
  let text ← (t.read file.path).mapError MigrationError.file
  (Script.ofDocument text).mapError fun e => .invalidScript file.path e.message

section

variable {t : FileTree} {w : Workspace} {files : List MigrationFile}

theorem eq_of_nameIn? {dir place : Place} {name : String} (h : FileTree.nameIn? dir place = some name) :
    place = dir ++ [name] := by
  unfold FileTree.nameIn? at h
  cases hlast : place.getLast? with
  | none => rw [hlast] at h; cases h
  | some last =>
    rw [hlast] at h
    obtain ⟨hplace, hname⟩ := Option.ite_none_right_eq_some.1 h
    rw [← Option.some_inj.1 hname]
    exact eq_of_beq hplace

/-- A directory has no two entries of the same name. -/
theorem nodup_entries (ht : t.PlacesUnique) {path : String} {entries : List (String × FileKind)}
    (h : t.entries path = .ok entries) : (entries.map (·.1)).Nodup := by
  unfold FileTree.entries at h
  cases hplace : t.resolve path with
  | error e => rw [hplace] at h; cases h
  | ok place =>
    rw [hplace] at h
    dsimp only [bind, Except.bind] at h
    cases hnode : t.node? place with
    | none => rw [hnode] at h; cases h
    | some node =>
      rw [hnode] at h
      cases node with
      | directory =>
        cases h
        have hnames : (t.nodes.filterMap fun entry =>
            (FileTree.nameIn? place entry.1).map fun name => (name, entry.2.kind)).map (·.1) =
            (t.nodes.map (·.1)).filterMap (FileTree.nameIn? place) := by
          rw [List.map_filterMap, List.filterMap_map]
          refine List.filterMap_congr fun entry _ => ?_
          show ((FileTree.nameIn? place entry.1).map _).map _ = FileTree.nameIn? place entry.1
          cases FileTree.nameIn? place entry.1 <;> rfl
        refine (congrArg List.Nodup hnames).mpr (List.Nodup.filterMap (fun a b name ha hb => ?_) ht)
        rw [eq_of_nameIn? ha, eq_of_nameIn? hb]
      | text | octets | database => cases h

theorem stem?_eq_some_iff {extension file stem : String} :
    Path.stem? extension file = some stem ↔ file = stem ++ "." ++ extension ∧ stem ≠ "" := by
  have hsuffix : (stem ++ "." ++ extension).toList = stem.toList ++ '.' :: extension.toList := by
    simp [String.toList_append]
  simp only [Path.stem?, Bool.and_eq_true, Option.ite_none_right_eq_some, List.isSuffixOf_iff_suffix,
    decide_eq_true_eq, Option.some_inj]
  constructor
  · rintro ⟨⟨⟨front, hfront⟩, hlength⟩, rfl⟩
    rw [← hfront, List.length_append] at hlength ⊢
    have htake : (front ++ '.' :: extension.toList).take (front.length + ('.' :: extension.toList).length -
        ('.' :: extension.toList).length) = front := by
      rw [Nat.add_sub_cancel, List.take_left]
    rw [htake]
    refine ⟨String.toList_inj.1 ?_, fun hempty => ?_⟩
    · rw [← hfront]
      simp [String.toList_append]
    · rw [String.ofList_eq_empty_iff.1 hempty] at hlength
      simp at hlength
  · rintro ⟨rfl, hstem⟩
    rw [hsuffix]
    refine ⟨⟨⟨stem.toList, rfl⟩, ?_⟩, ?_⟩
    · rw [List.length_append]
      exact Nat.lt_add_of_pos_left (List.length_pos_iff.2 (String.toList_eq_nil_iff.not.2 hstem))
    · rw [List.length_append, Nat.add_sub_cancel, List.take_left, String.ofList_toList]

theorem stem?_injective {extension a b stem : String} (ha : Path.stem? extension a = some stem)
    (hb : Path.stem? extension b = some stem) : a = b :=
  (stem?_eq_some_iff.1 ha).1.trans (stem?_eq_some_iff.1 hb).1.symm

namespace Directory

variable {d : Directory} {entries entries' : List (String × FileKind)}

/-- The migration file that an entry is, if it is one. -/
def fileOf? (d : Directory) : String × FileKind → Option MigrationFile
  | (entry, kind) =>
    if kind == .file then (Path.stem? extension entry).map fun name => { name, path := Path.join d.path entry }
    else none

theorem migrationFiles_eq (d : Directory) (entries : List (String × FileKind)) :
    d.migrationFiles entries = (entries.filterMap d.fileOf?).mergeSort fun a b => a.name ≤ b.name := rfl

/-- A migration file is a regular file with its name and the extension. -/
theorem fileOf?_eq_some_iff {entry : String × FileKind} {file : MigrationFile} :
    d.fileOf? entry = some file ↔
      entry = (file.name ++ "." ++ extension, .file) ∧ file.name ≠ "" ∧ file.path = d.filePath file.name := by
  obtain ⟨text, kind⟩ := entry
  obtain ⟨name, path⟩ := file
  constructor
  · intro h
    obtain ⟨hkind, hfile⟩ := Option.ite_none_right_eq_some.1 h
    obtain ⟨stem, hstem, heq⟩ := Option.map_eq_some_iff.1 hfile
    cases heq
    obtain ⟨rfl, hname⟩ := stem?_eq_some_iff.1 hstem
    exact ⟨Prod.ext rfl (eq_of_beq hkind), hname, rfl⟩
  · rintro ⟨hentry, hname, hpath⟩
    cases hentry
    obtain rfl : path = d.filePath name := hpath
    exact Option.map_eq_some_iff.2 ⟨name, stem?_eq_some_iff.2 ⟨rfl, hname⟩, rfl⟩

theorem mem_migrationFiles_iff {file : MigrationFile} :
    file ∈ d.migrationFiles entries ↔
      (file.name ++ "." ++ extension, .file) ∈ entries ∧ file.name ≠ "" ∧ file.path = d.filePath file.name := by
  rw [migrationFiles_eq, List.mem_mergeSort, List.mem_filterMap]
  constructor
  · rintro ⟨entry, hentry, hfile⟩
    obtain ⟨rfl, hname, hpath⟩ := fileOf?_eq_some_iff.1 hfile
    exact ⟨hentry, hname, hpath⟩
  · rintro ⟨hentry, hname, hpath⟩
    exact ⟨_, hentry, fileOf?_eq_some_iff.2 ⟨rfl, hname, hpath⟩⟩

theorem name_le_trans (a b c : MigrationFile) (hab : decide (a.name ≤ b.name) = true)
    (hbc : decide (b.name ≤ c.name) = true) : decide (a.name ≤ c.name) = true :=
  decide_eq_true (String.le_trans (of_decide_eq_true hab) (of_decide_eq_true hbc))

theorem name_le_total (a b : MigrationFile) : (decide (a.name ≤ b.name) || decide (b.name ≤ a.name)) = true := by
  rw [Bool.or_eq_true, decide_eq_true_eq, decide_eq_true_eq]
  exact String.le_total a.name b.name

theorem pairwise_migrationFiles (d : Directory) (entries : List (String × FileKind)) :
    (d.migrationFiles entries).Pairwise fun a b => a.name ≤ b.name :=
  (List.pairwise_mergeSort name_le_trans name_le_total _).imp of_decide_eq_true

/-- The order of the entries does not matter. -/
theorem migrationFiles_eq_of_perm (h : entries.Perm entries') :
    d.migrationFiles entries = d.migrationFiles entries' := by
  refine List.Perm.eq_of_pairwise (fun a b ha hb hab hba => ?_) (d.pairwise_migrationFiles entries)
    (d.pairwise_migrationFiles entries') ?_
  · have hname := String.le_antisymm hab hba
    obtain ⟨-, -, hpath⟩ := mem_migrationFiles_iff.1 ha
    obtain ⟨-, -, hpath'⟩ := mem_migrationFiles_iff.1 hb
    rw [← hname] at hpath'
    cases a
    cases b
    exact MigrationFile.mk.injEq .. |>.mpr ⟨hname, hpath.trans hpath'.symm⟩
  · exact (List.mergeSort_perm _ _).trans ((h.filterMap _).trans (List.mergeSort_perm _ _).symm)

end Directory

theorem names_migrationFiles_perm (d : Directory) (entries : List (String × FileKind)) :
    ((d.migrationFiles entries).map MigrationFile.name).Perm
      (((entries.filter fun entry => entry.2 == .file).map (·.1)).filterMap (Path.stem? Directory.extension)) := by
  refine ((List.mergeSort_perm _ _).map _).trans (.of_eq ?_)
  rw [List.map_filterMap, List.filterMap_map, List.filterMap_filter]
  refine List.filterMap_congr fun entry _ => ?_
  obtain ⟨name, kind⟩ := entry
  cases kind with
  | directory => rfl
  | file =>
    show ((Path.stem? Directory.extension name).map _).map _ = Path.stem? Directory.extension name
    cases Path.stem? Directory.extension name <;> rfl

/-- Migration files are either none, or those among the entries of a directory. -/
theorem filesIn_eq_ok (h : w.filesIn t = .ok files) :
    files = [] ∨ ∃ entries, t.entries w.directory = .ok entries ∧ files = w.files.migrationFiles entries := by
  unfold Workspace.filesIn at h
  cases hkind : t.kind? w.directory with
  | none =>
    rw [hkind] at h
    cases h
    exact .inl rfl
  | some kind =>
    rw [hkind] at h
    cases kind with
    | file => cases h
    | directory =>
      cases hentries : t.entries w.directory with
      | error e => rw [hentries] at h; cases h
      | ok entries =>
        rw [hentries] at h
        cases h
        exact .inr ⟨entries, rfl, rfl⟩

/-- No two migration files have the same name. -/
theorem keysUnique_of_filesIn (ht : t.PlacesUnique) (h : w.filesIn t = .ok files) :
    KeysUnique MigrationFile.name files := by
  rcases filesIn_eq_ok h with rfl | ⟨entries, hentries, rfl⟩
  · exact List.nodup_nil
  · refine (names_migrationFiles_perm w.files entries).nodup_iff.2 ?_
    refine List.Nodup.filterMap (fun a b stem => stem?_injective) ?_
    exact List.Nodup.sublist (List.Sublist.map _ List.filter_sublist) (nodup_entries ht hentries)

/-- Migration files come in the order of their names. -/
theorem sorted_of_filesIn (h : w.filesIn t = .ok files) : files.Pairwise fun a b => a.name ≤ b.name := by
  rcases filesIn_eq_ok h with rfl | ⟨entries, -, rfl⟩
  · exact .nil
  · exact w.files.pairwise_migrationFiles entries

end

end SchemaMigration
