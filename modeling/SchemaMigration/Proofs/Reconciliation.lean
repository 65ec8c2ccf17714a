import SchemaMigration.Proofs.Plans

/-!
# Files and records in one list

Reconciling files and records of distinct names loses none of them and makes nothing up (`reconcile_accountsFor`): there
is one migration for each name, the files come first and then the records without a file, either of them in their order,
and each file and each record is in exactly one migration. `AccountsFor` says so of any list of migrations.
-/

namespace SchemaMigration.Migration

/-- What becomes of a file: it is applied, with the record of its name, or new where no record has its name. -/
inductive Describes (rs : List Record) (f : MigrationFile) : Migration → Prop
  | applied {r : Record} : r ∈ rs → r.name = f.name → Describes rs f (.applied f r)
  | new : (∀ r ∈ rs, r.name ≠ f.name) → Describes rs f (.new f)

/-- The migrations are those of the files and the records. -/
structure AccountsFor (ms : List Migration) (fs : List MigrationFile) (rs : List Record) : Prop where
  /-- A name that both have counts once. -/
  length : ms.length + (rs.map Record.name ∩ fs.map MigrationFile.name).length = fs.length + rs.length
  names : KeysUnique name ms
  /-- One for each file, and then one for each record whose name no file has. -/
  inOrder : ∃ filed, List.Forall₂ (Describes rs) fs filed ∧
    ms = filed ++ (rs.filter fun r => fs.all fun f => f.name ≠ r.name).map deleted
  files : ∀ f ∈ fs, ms.countP (fun m => m.file? = some f) = 1
  records : ∀ r ∈ rs, ms.countP (fun m => m.record? = some r) = 1

section

variable {fs : List MigrationFile} {rs : List Record} {ms : List Migration}

/-! ## The parts of the list -/

theorem describes_ofFile (f : MigrationFile) : Describes rs f (ofFile rs f) := by
  unfold ofFile
  cases h : withKey? Record.name f.name rs with
  | some r => exact .applied (mem_of_withKey? h) (key_of_withKey? h)
  | none => exact .new (withKey?_eq_none_iff.1 h)

theorem file?_ofFile (f : MigrationFile) : (ofFile rs f).file? = some f := by
  unfold ofFile
  split <;> rfl

theorem record?_ofFile (f : MigrationFile) : (ofFile rs f).record? = withKey? Record.name f.name rs := by
  unfold ofFile
  cases withKey? Record.name f.name rs <;> rfl

theorem orphaned_eq (fs : List MigrationFile) (rs : List Record) :
    orphaned fs rs = (rs.filter fun r => fs.all fun f => f.name ≠ r.name).map deleted := by
  rw [orphaned]
  congr 1
  refine List.filter_congr fun r _ => ?_
  rw [Bool.eq_iff_iff, Option.isNone_iff_eq_none, withKey?_eq_none_iff, List.all_eq_true]
  simp

/-- The record of a migration has the migration's name. -/
theorem name_of_record? {m : Migration} (hm : m ∈ fs.map (ofFile rs) ++ orphaned fs rs) {r : Record}
    (hr : m.record? = some r) : r.name = m.name := by
  rcases List.mem_append.1 hm with hm | hm
  · obtain ⟨f, -, rfl⟩ := List.mem_map.1 hm
    rw [record?_ofFile] at hr
    rw [name_ofFile, key_of_withKey? hr]
  · obtain ⟨r', -, -, rfl⟩ := mem_orphaned.1 hm
    cases hr
    rfl

/-- Where names are distinct, no two migrations have a record of the same name. -/
theorem keysUnique_filterMap_record? (hms : KeysUnique name ms)
    (hname : ∀ m ∈ ms, ∀ r, m.record? = some r → r.name = m.name) :
    KeysUnique Record.name (ms.filterMap record?) := by
  have hsub : ((ms.filterMap record?).map Record.name).Sublist (ms.map name) := by
    clear hms
    induction ms with
    | nil => exact .slnil
    | cons m ms ih =>
      have ih := ih fun m' hm' => hname m' (List.mem_cons_of_mem m hm')
      cases hr : m.record? with
      | none =>
        rw [List.filterMap_cons_none hr]
        exact ih.cons _
      | some r =>
        rw [List.filterMap_cons_some hr, List.map_cons, hname m List.mem_cons_self r hr]
        exact ih.cons_cons _
  exact hms.sublist hsub

/-- An element that is told from all others by a part of it is there once. -/
theorem countP_eq_one {α : Type} [DecidableEq α] {part : Migration → Option α} {x : α}
    (hnodup : (ms.filterMap part).Nodup) (hx : x ∈ ms.filterMap part) :
    ms.countP (fun m => part m = some x) = 1 := by
  have hcount := List.count_eq_one_of_mem hnodup hx
  rw [List.count_filterMap] at hcount
  rw [← hcount]
  exact List.countP_congr fun m _ => by simp

theorem length_orphaned (fs : List MigrationFile) (rs : List Record) :
    (orphaned fs rs).length + (rs.map Record.name ∩ fs.map MigrationFile.name).length = rs.length := by
  have hshared : (rs.map Record.name ∩ fs.map MigrationFile.name).length =
      (rs.filter fun r => !(fs.all fun f => f.name ≠ r.name)).length := by
    show ((rs.map Record.name).filter _).length = _
    rw [List.filter_map, List.length_map]
    congr 1
    refine List.filter_congr fun r _ => ?_
    rw [Bool.eq_iff_iff]
    simp
  rw [orphaned_eq, List.length_map, hshared]
  exact (List.length_eq_length_filter_add _).symm

/-! ## The whole list -/

section

variable (hfs : KeysUnique MigrationFile.name fs) (hrs : KeysUnique Record.name rs)

include hfs hrs

theorem keysUnique_reconcile : KeysUnique name (reconcile fs rs) := by
  rw [reconcile_eq hfs hrs, KeysUnique, List.map_append, names_orphaned, List.map_map]
  have hnames : fs.map (name ∘ ofFile rs) = fs.map MigrationFile.name := List.map_congr_left fun f _ => name_ofFile f
  rw [hnames, List.nodup_append]
  refine ⟨hfs, hrs.filter _, ?_⟩
  rintro _ hfile _ hrecord rfl
  obtain ⟨f, hf, hname⟩ := List.mem_map.1 hfile
  obtain ⟨r, hr, rfl⟩ := List.mem_map.1 hrecord
  exact withKey?_eq_none_iff.1 (Option.isNone_iff_eq_none.1 (List.mem_filter.1 hr).2) f hf hname

theorem filterMap_file?_reconcile : (reconcile fs rs).filterMap file? = fs := by
  have hfiles : (file? ∘ ofFile rs) = some := funext file?_ofFile
  have hnone : (orphaned fs rs).filterMap file? = [] := by
    rw [orphaned, List.filterMap_map]
    exact List.filterMap_eq_nil_iff.2 fun _ _ => rfl
  rw [reconcile_eq hfs hrs, List.filterMap_append, hnone, List.append_nil, List.filterMap_map, hfiles,
    List.filterMap_some]

/-- A record is that of its file, or deleted where no file has its name. -/
theorem mem_filterMap_record?_reconcile {r : Record} (hr : r ∈ rs) : r ∈ (reconcile fs rs).filterMap record? := by
  rw [reconcile_eq hfs hrs, List.filterMap_append, List.mem_append, List.mem_filterMap, List.mem_filterMap]
  cases hfile : withKey? MigrationFile.name r.name fs with
  | some f =>
    left
    refine ⟨ofFile rs f, List.mem_map_of_mem (mem_of_withKey? hfile), ?_⟩
    rw [record?_ofFile, key_of_withKey? hfile]
    exact hrs.withKey?_key hr
  | none => exact .inr ⟨deleted r, mem_orphaned.2 ⟨r, hr, hfile, rfl⟩, rfl⟩

/-- No file and no record is lost or doubled, and nothing is made up; the changes are the same list without what is
applied. -/
theorem reconcile_accountsFor :
    AccountsFor (reconcile fs rs) fs rs ∧
      (changes (reconcile fs rs)).Sublist (reconcile fs rs) ∧
      ∀ m, m ∈ changes (reconcile fs rs) ↔ m ∈ reconcile fs rs ∧ m.state ≠ .applied := by
  have hnames := keysUnique_reconcile hfs hrs
  refine ⟨⟨?_, hnames, ?_, ?_, ?_⟩, List.filter_sublist, ?_⟩
  · have horphaned := length_orphaned fs rs
    rw [reconcile_eq hfs hrs, List.length_append, List.length_map]
    omega
  · refine ⟨fs.map (ofFile rs), ?_, ?_⟩
    · rw [List.forall₂_map_right_iff]
      exact List.forall₂_same.2 fun f _ => describes_ofFile f
    · rw [← orphaned_eq, reconcile_eq hfs hrs]
  · intro f hf
    have hfiles := filterMap_file?_reconcile hfs hrs
    exact countP_eq_one (by rw [hfiles]; exact List.Nodup.of_map _ hfs) (by rw [hfiles]; exact hf)
  · intro r hr
    have hrecords : KeysUnique Record.name ((reconcile fs rs).filterMap record?) := by
      refine keysUnique_filterMap_record? hnames fun m hm r => ?_
      rw [reconcile_eq hfs hrs] at hm
      exact name_of_record? hm
    exact countP_eq_one (List.Nodup.of_map _ hrecords) (mem_filterMap_record?_reconcile hfs hrs hr)
  · intro m
    simp [changes]

end

end

namespace Sample

/-- Three migrations in a directory. -/
def files : List MigrationFile :=
  [{ name := "A", path := "m/A.yaml" }, { name := "B", path := "m/B.yaml" }, { name := "C", path := "m/C.yaml" }]

/-- Two records, of which one has lost its file. -/
def records : List Record :=
  [{ name := "D", created := ⟨20, 0⟩, down := "DROP TABLE d;" }, { name := "A", created := ⟨10, 0⟩, down := "" }]

end Sample

theorem reconcile_accountsFor_four :
    KeysUnique MigrationFile.name Sample.files ∧ KeysUnique Record.name Sample.records ∧
      (reconcile Sample.files Sample.records).map (fun m => (m.name, m.state)) =
        [("A", .applied), ("B", .new), ("C", .new), ("D", .deleted)] ∧
      AccountsFor (reconcile Sample.files Sample.records) Sample.files Sample.records :=
  have hfs : KeysUnique MigrationFile.name Sample.files := by decide
  have hrs : KeysUnique Record.name Sample.records := by decide
  ⟨hfs, hrs, by decide, (reconcile_accountsFor hfs hrs).1⟩

end SchemaMigration.Migration
