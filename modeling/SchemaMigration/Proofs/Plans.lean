import SchemaMigration.Migration.Runner
import SchemaMigration.Proofs.Keyed

/-!
# Plans

Which migrations files and records of distinct names describe, and which of them a run goes through. Each file makes one
migration, with its record if there is one, and each record without a file another one, in the order of the files and
then of the records (`Migration.reconcile_eq`). `toBeApplied` and `toBeReverted` say which of them a run takes, and in
which order.
-/

namespace SchemaMigration.Migration

/-- The migration of a file. -/
def ofFile (rs : List Record) (f : MigrationFile) : Migration :=
  match withKey? Record.name f.name rs with
  | some r => applied f r
  | none => new f

/-- The files without a record. -/
def pending (fs : List MigrationFile) (rs : List Record) : List Migration :=
  (fs.filter fun f => (withKey? Record.name f.name rs).isNone).map new

/-- The files with a record. -/
def recorded (fs : List MigrationFile) (rs : List Record) : List Migration :=
  fs.filterMap fun f => (withKey? Record.name f.name rs).map (applied f)

/-- The records without a file. -/
def orphaned (fs : List MigrationFile) (rs : List Record) : List Migration :=
  (rs.filter fun r => (withKey? MigrationFile.name r.name fs).isNone).map deleted

/-- What a run forward is to apply: its target alone, which must have a file, or else the files without a record in
their order, as many as `count` says (`upTo_eq_iff`). -/
def toBeApplied (fs : List MigrationFile) (rs : List Record) :
    Option String → Option Nat → Except MigrationError (List Migration)
  | none, count => .ok (upTo count (pending fs rs))
  | some name, _ =>
    match withKey? MigrationFile.name name fs with
    | some f => .ok [ofFile rs f]
    | none => .error (.migrationNotFound name)

/-- What a run backward without a target is to revert: the records without a file, the last one first, and then the
files with a record, the last one first. -/
def toBeReverted (fs : List MigrationFile) (rs : List Record) : List Migration :=
  (orphaned fs rs).reverse ++ (recorded fs rs).reverse

section

variable {fs : List MigrationFile} {rs : List Record} {m : Migration}

@[simp]
theorem name_ofFile (f : MigrationFile) : (ofFile rs f).name = f.name := by
  unfold ofFile
  split <;> rfl

theorem ofFile_congr {rs' : List Record} {f : MigrationFile}
    (h : withKey? Record.name f.name rs' = withKey? Record.name f.name rs) : ofFile rs' f = ofFile rs f := by
  rw [ofFile, ofFile, h]

/-! ## Pairing -/

theorem foldl_put {xs ys : List Record} (h : KeysUnique Record.name (xs ++ ys)) :
    ys.foldl Record.put xs = xs ++ ys := by
  induction ys generalizing xs with
  | nil => exact (List.append_nil xs).symm
  | cons y ys ih =>
    have hnew : ¬(xs.any fun r => r.name == y.name) = true := by
      rw [List.any_eq_true]
      rintro ⟨r, hr, hname⟩
      have hnodup : ((xs ++ y :: ys).map Record.name).Nodup := h
      rw [List.map_append, List.map_cons] at hnodup
      have hdistinct := (List.nodup_append.1 hnodup).2.2 r.name (List.mem_map_of_mem hr) y.name List.mem_cons_self
      exact hdistinct (by simpa using hname)
    rw [List.foldl_cons, Record.put, if_neg hnew, ih, List.append_assoc]
    · rfl
    · rw [List.append_assoc]
      exact h

/-- Records of distinct names are all kept. -/
theorem distinct_eq_self (h : KeysUnique Record.name rs) : Record.distinct rs = rs :=
  foldl_put (h : KeysUnique Record.name ([] ++ rs))

theorem pair_eq (h : KeysUnique MigrationFile.name fs) (rs : List Record) :
    pair fs rs = fs.map (ofFile rs) ++ orphaned fs rs := by
  induction fs generalizing rs with
  | nil => simp [pair, orphaned]
  | cons f fs ih =>
    have hother : ∀ g ∈ fs, g.name ≠ f.name := by
      intro g hg hname
      exact (List.nodup_cons.1 h).1 (hname ▸ List.mem_map_of_mem hg)
    cases hr : withKey? Record.name f.name rs with
    | some r =>
      -- the record is taken out, and no other file has its name
      have hmap : fs.map (ofFile (rs.filter (·.name != f.name))) = fs.map (ofFile rs) := by
        refine List.map_congr_left fun g hg => ofFile_congr ?_
        rw [withKey?_filter fun name => name != f.name, if_pos (by simpa using hother g hg)]
      have horphaned : orphaned fs (rs.filter (·.name != f.name)) = orphaned (f :: fs) rs := by
        rw [orphaned, orphaned, List.filter_filter]
        congr 1
        refine List.filter_congr fun r _ => ?_
        rw [withKey?_cons]
        by_cases hname : f.name = r.name
        · simp [hname]
        · simp [hname, Ne.symm hname]
      have hfind : rs.find? (·.name == f.name) = some r := hr
      rw [pair, hfind]
      show applied f r :: pair fs (rs.filter (·.name != f.name)) = _
      rw [ih h.tail, hmap, horphaned, List.map_cons, ofFile, hr]
      rfl
    | none =>
      have horphaned : orphaned fs rs = orphaned (f :: fs) rs := by
        rw [orphaned, orphaned]
        congr 1
        refine List.filter_congr fun r hmem => ?_
        rw [withKey?_cons, if_neg fun hname => withKey?_eq_none_iff.1 hr r hmem hname.symm]
      have hfind : rs.find? (·.name == f.name) = none := hr
      rw [pair, hfind]
      show new f :: pair fs rs = _
      rw [ih h.tail, horphaned, List.map_cons, ofFile, hr]
      rfl

/-- Each file is one migration, and so is each record without a file. -/
theorem reconcile_eq (hfs : KeysUnique MigrationFile.name fs) (hrs : KeysUnique Record.name rs) :
    reconcile fs rs = fs.map (ofFile rs) ++ orphaned fs rs := by
  rw [reconcile, distinct_eq_self hrs, pair_eq hfs]

/-! ## Selecting -/

theorem filter_new_orphaned : (orphaned fs rs).filter (fun m => m.state == .new) = [] := by
  rw [List.filter_eq_nil_iff]
  intro m hm
  obtain ⟨r, -, rfl⟩ := List.mem_map.1 hm
  exact Bool.false_ne_true

theorem filter_new_ofFile : (fs.map (ofFile rs)).filter (fun m => m.state == .new) = pending fs rs := by
  induction fs with
  | nil => rfl
  | cons f fs ih =>
    rw [List.map_cons, List.filter_cons, ih, pending, pending, List.filter_cons, ofFile]
    cases withKey? Record.name f.name rs <;> rfl

theorem filter_not_new_ofFile : (fs.map (ofFile rs)).filter (fun m => m.state != .new) = recorded fs rs := by
  induction fs with
  | nil => rfl
  | cons f fs ih =>
    rw [List.map_cons, List.filter_cons, ih, recorded, recorded, List.filterMap_cons, ofFile]
    cases withKey? Record.name f.name rs <;> rfl

theorem filter_not_new_orphaned : (orphaned fs rs).filter (fun m => m.state != .new) = orphaned fs rs := by
  rw [List.filter_eq_self]
  intro m hm
  obtain ⟨r, -, rfl⟩ := List.mem_map.1 hm
  rfl

section

variable (hfs : KeysUnique MigrationFile.name fs) (hrs : KeysUnique Record.name rs)

include hfs hrs

theorem toApply_none (count : Option Nat) :
    toApply (reconcile fs rs) none count = toBeApplied fs rs none count := by
  rw [toApply, reconcile_eq hfs hrs, List.filter_append, filter_new_ofFile, filter_new_orphaned, List.append_nil]
  rfl

/-- A target is applied alone, if it has a file. -/
theorem toApply_some (name : String) (count : Option Nat) :
    toApply (reconcile fs rs) (some name) count = toBeApplied fs rs (some name) count := by
  have hfind : (reconcile fs rs).find? (fun m => m.name == name && m.state != .deleted) =
      (withKey? MigrationFile.name name fs).map (ofFile rs) := by
    rw [reconcile_eq hfs hrs, List.find?_append]
    have hnone : (orphaned fs rs).find? (fun m => m.name == name && m.state != .deleted) = none := by
      rw [List.find?_eq_none]
      intro m hm
      obtain ⟨r, -, rfl⟩ := List.mem_map.1 hm
      simp [state]
    have hofFile : (fun m : Migration => m.name == name && m.state != .deleted) ∘ ofFile rs =
        fun f => f.name == name := by
      funext f
      have hstate : (ofFile rs f).state ≠ .deleted := by
        unfold ofFile
        split <;> nofun
      simp [hstate]
    rw [hnone, Option.or_none, List.find?_map, hofFile]
    rfl
  rw [toApply, hfind, toBeApplied]
  cases withKey? MigrationFile.name name fs <;> rfl

/-- What a run forward applies, with a target or without. -/
theorem toApply_eq (target : Option String) (count : Option Nat) :
    toApply (reconcile fs rs) target count = toBeApplied fs rs target count := by
  cases target with
  | none => exact toApply_none hfs hrs count
  | some name => exact toApply_some hfs hrs name count

theorem toRevert_none (count : Option Nat) :
    toRevert (reconcile fs rs) none count = .ok (upTo count (toBeReverted fs rs)) := by
  rw [toRevert, reconcile_eq hfs hrs, List.reverse_append, List.filter_append, List.filter_reverse, List.filter_reverse,
    filter_not_new_ofFile, filter_not_new_orphaned]
  rfl

end

/-! ## Names -/

theorem mem_pending : m ∈ pending fs rs ↔ ∃ f ∈ fs, withKey? Record.name f.name rs = none ∧ new f = m := by
  simp [pending, and_assoc]

theorem mem_recorded :
    m ∈ recorded fs rs ↔ ∃ f ∈ fs, ∃ r, withKey? Record.name f.name rs = some r ∧ applied f r = m := by
  simp [recorded]

theorem mem_orphaned : m ∈ orphaned fs rs ↔ ∃ r ∈ rs, withKey? MigrationFile.name r.name fs = none ∧ deleted r = m := by
  simp [orphaned, and_assoc]

theorem mem_toBeReverted : m ∈ toBeReverted fs rs ↔ m ∈ orphaned fs rs ∨ m ∈ recorded fs rs := by
  simp [toBeReverted]

theorem names_pending : (pending fs rs).map name =
    (fs.filter fun f => (withKey? Record.name f.name rs).isNone).map MigrationFile.name := by
  rw [pending, List.map_map]
  rfl

theorem names_recorded : (recorded fs rs).map name =
    (fs.filter fun f => (withKey? Record.name f.name rs).isSome).map MigrationFile.name := by
  induction fs with
  | nil => rfl
  | cons f fs ih =>
    rw [recorded, List.filterMap_cons, List.filter_cons]
    cases withKey? Record.name f.name rs with
    | none => exact ih
    | some r => exact congrArg (f.name :: ·) ih

theorem names_orphaned : (orphaned fs rs).map name =
    (rs.filter fun r => (withKey? MigrationFile.name r.name fs).isNone).map Record.name := by
  rw [orphaned, List.map_map]
  rfl

theorem keysUnique_pending (hfs : KeysUnique MigrationFile.name fs) : KeysUnique name (pending fs rs) := by
  rw [KeysUnique, names_pending]
  exact hfs.filter _

/-- No name is to be reverted twice. -/
theorem keysUnique_toBeReverted (hfs : KeysUnique MigrationFile.name fs) (hrs : KeysUnique Record.name rs) :
    KeysUnique name (toBeReverted fs rs) := by
  rw [KeysUnique, toBeReverted, ← List.reverse_append, List.map_reverse, List.nodup_reverse, List.map_append,
    List.nodup_append, names_recorded, names_orphaned]
  refine ⟨hfs.filter _, hrs.filter _, ?_⟩
  rintro _ hfile _ hrecord rfl
  obtain ⟨f, hf, hname⟩ := List.mem_map.1 hfile
  obtain ⟨r, hr, rfl⟩ := List.mem_map.1 hrecord
  have hnone := withKey?_eq_none_iff.1 (Option.isNone_iff_eq_none.1 (List.mem_filter.1 hr).2)
  exact hnone f (List.mem_filter.1 hf).1 hname

end

end SchemaMigration.Migration
