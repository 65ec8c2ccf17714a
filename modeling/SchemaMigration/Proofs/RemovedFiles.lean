import SchemaMigration.Proofs.LiveRuns
import SchemaMigration.Proofs.NewListings

/-!
# Removed files

What becomes of a migration when its file is removed. The directory is still found, for no file is on the way to it
(`FileTree.follow_remove`), and its listing lacks just that file (`filesIn_remove`). So a migration without its file is
told by its record alone: it is listed as deleted if there is one and not at all if there is none, and the others are
listed as before (`list_remove`).
-/

namespace SchemaMigration

namespace FileTree

variable {t : FileTree} {place target removed : Place} {node : FileNode} {path name : String} {names : List String}

theorem nodes_remove (t : FileTree) (removed : Place) :
    (t.remove removed).nodes = t.nodes.filter fun entry => !removed.isPrefixOf entry.1 := rfl

theorem PlacesUnique.remove (h : t.PlacesUnique) (removed : Place) : (t.remove removed).PlacesUnique :=
  List.Nodup.sublist (List.filter_sublist.map _) h

/-- Nothing is left at a place and below it, and all else stays. -/
theorem node?_remove (h : removed ≠ []) (t : FileTree) (place : Place) :
    (t.remove removed).node? place = if removed <+: place then none else t.node? place := by
  split
  · next hbelow =>
    have hplace : place.isEmpty = false := by
      rw [List.isEmpty_eq_false_iff]
      rintro rfl
      exact h (List.prefix_nil.1 hbelow)
    have hlookup : (t.remove removed).nodes.lookup place = none := by
      rw [nodes_remove, List.lookup_eq_none_iff]
      intro entry hentry
      rw [bne_iff_ne]
      rintro rfl
      simp [List.isPrefixOf_iff_prefix.2 hbelow] at hentry
    simp [node?, hplace, hlookup]
  · next hbelow =>
    have hkept : (!removed.isPrefixOf place) = true := by
      rw [Bool.not_eq_true', Bool.eq_false_iff, ne_eq, List.isPrefixOf_iff_prefix]
      exact hbelow
    have hlookup := lookup_filter (p := fun place => !removed.isPrefixOf place) hkept t.nodes
    simp only [node?, nodes_remove, hlookup]

/-- A path that leads to a file ends there. -/
theorem follow_of_file (hnode : t.node? place = some node) (hfile : node ≠ .directory)
    (h : t.follow place names = .ok target) : target = place := by
  induction names with
  | nil => exact (Except.ok.inj h).symm
  | cons name names ih =>
    rcases follow_cons_eq_ok_iff.1 h with ⟨-, hrest⟩ | ⟨-, hdirectory, -⟩
    · exact ih hrest
    · exact absurd (Option.some_inj.1 (hnode.symm.trans hdirectory)) hfile

/-- The way to another place does not go through a file. -/
theorem follow_remove (hnode : t.node? removed = some node) (hfile : node ≠ .directory) (hroot : removed ≠ [])
    (hplace : ¬ removed <+: place) (htarget : target ≠ removed) (h : t.follow place names = .ok target) :
    (t.remove removed).follow place names = .ok target ∧ ¬ removed <+: target := by
  induction names generalizing place with
  | nil =>
    obtain rfl : place = target := Except.ok.inj h
    exact ⟨rfl, hplace⟩
  | cons name names ih =>
    rw [follow_cons_eq_ok_iff]
    rcases follow_cons_eq_ok_iff.1 h with ⟨hname, hrest⟩ | ⟨hname, hdirectory, next, hstep, hrest⟩
    · exact ⟨.inl ⟨hname, (ih hplace hrest).1⟩, (ih hplace hrest).2⟩
    have hnext : ¬ removed <+: next := by
      rcases hstep with ⟨-, rfl⟩ | ⟨-, rfl⟩ | ⟨-, -, -, rfl⟩
      · exact hplace
      · exact fun hbelow => hplace (hbelow.trans (List.dropLast_prefix place))
      · -- a step down to the file itself would be the end of the path, which is elsewhere
        intro hbelow
        rcases List.prefix_concat_iff.1 hbelow with heq | hbelow
        · exact htarget ((follow_of_file (heq ▸ hnode) hfile hrest).trans heq.symm)
        · exact hplace hbelow
    obtain ⟨hfollow, htarget⟩ := ih hnext hrest
    refine ⟨.inr ⟨hname, ?_, next, hstep, hfollow⟩, htarget⟩
    rw [node?_remove hroot, if_neg hplace]
    exact hdirectory

theorem IsDirectoryAt.remove (h : t.IsDirectoryAt path place) (hnode : t.node? removed = some node)
    (hfile : node ≠ .directory) : (t.remove removed).IsDirectoryAt path place := by
  have hroot : removed ≠ [] := by
    rintro rfl
    exact hfile (Option.some_inj.1 hnode.symm)
  have hne : place ≠ removed := by
    rintro rfl
    exact hfile (Option.some_inj.1 (hnode.symm.trans h.2))
  obtain ⟨hpath, hfollow⟩ := resolve_eq_ok_iff.1 h.1
  obtain ⟨hfollow, hbelow⟩ :=
    follow_remove hnode hfile hroot (fun hbelow => hroot (List.prefix_nil.1 hbelow)) hne hfollow
  exact ⟨resolve_eq_ok_iff.2 ⟨hpath, hfollow⟩, by rw [node?_remove hroot, if_neg hbelow, h.2]⟩

theorem entriesAt_remove (t : FileTree) (place : Place) (name : String) :
    entriesAt place (t.remove (place ++ [name])).nodes = (entriesAt place t.nodes).filter (·.1 != name) := by
  rw [nodes_remove, entriesAt, entriesAt, List.filterMap_filter, List.filter_filterMap]
  refine List.filterMap_congr fun entry _ => ?_
  obtain ⟨other, node⟩ := entry
  dsimp only
  cases hname : nameIn? place other with
  | none => simp
  | some found =>
    have hstarts : (place ++ [name]).isPrefixOf other = (found == name) := by
      rw [eq_of_nameIn? hname, Bool.eq_iff_iff, List.isPrefixOf_iff_prefix, List.prefix_append_right_inj]
      simp [@eq_comm _ name found]
    by_cases hfound : found = name <;> simp [hstarts, hfound, Option.filter]

end FileTree

/-! ## Listings -/

section

open FileTree (entriesAt)

variable {t : FileTree} {w : Workspace} {place : Place} {node : FileNode} {name : String}

/-- Without one of its files, a directory lists all others. -/
theorem filesIn_remove (ht : t.PlacesUnique) (hdirectory : t.IsDirectoryAt w.directory place) (hname : name ≠ "")
    (hnode : t.node? (place ++ [name ++ "." ++ Directory.extension]) = some node) (hfile : node.kind = .file) :
    ∃ files files', w.filesIn t = .ok files ∧
      w.filesIn (t.remove (place ++ [name ++ "." ++ Directory.extension])) = .ok files' ∧
      w.files.AddsTo name files' files := by
  have hne : node ≠ .directory := by
    rintro rfl
    cases hfile
  have hremaining := filesIn_eq_of_isDirectoryAt (w := w) (hdirectory.remove hnode hne)
  rw [FileTree.entriesAt_remove] at hremaining
  refine ⟨_, _, filesIn_eq_of_isDirectoryAt hdirectory, hremaining, ?_⟩
  have hunique : KeysUnique (·.1) (entriesAt place t.nodes) := nodup_entries ht hdirectory.entries
  have hentry : (name ++ "." ++ Directory.extension, FileKind.file) ∈ entriesAt place t.nodes :=
    FileTree.mem_entriesAt_iff.2 ⟨node, FileTree.mem_nodes_of_node? hnode (by simp), hfile.symm⟩
  have hsplit : (entriesAt place t.nodes).Perm
      ((entriesAt place t.nodes).filter (·.1 != name ++ "." ++ Directory.extension) ++
        [(name ++ "." ++ Directory.extension, .file)]) := by
    have hsame : (entriesAt place t.nodes).filter (·.1 == name ++ "." ++ Directory.extension) =
        [(name ++ "." ++ Directory.extension, .file)] := by
      rw [hunique.filter_key, hunique.withKey?_key hentry]
      rfl
    rw [← hsame]
    simpa [bne] using
      (List.filter_append_perm (·.1 != name ++ "." ++ Directory.extension) (entriesAt place t.nodes)).symm
  rw [Directory.migrationFiles_eq_of_perm hsplit]
  refine Directory.addsTo_migrationFiles hname fun hmem => ?_
  simp at hmem

end

/-! ## Migrations without a file -/

namespace Migration

variable {d : Directory} {name : String} {fs fs' : List MigrationFile} {rs : List Record} {m : Migration}

theorem mem_reconcile_iff (hfs : KeysUnique MigrationFile.name fs) (hrs : KeysUnique Record.name rs) :
    m ∈ reconcile fs rs ↔
      (∃ f ∈ fs, ofFile rs f = m) ∨ ∃ r ∈ rs, withKey? MigrationFile.name r.name fs = none ∧ deleted r = m := by
  rw [reconcile_eq hfs hrs, List.mem_append, List.mem_map, mem_orphaned]

/-- Without its file, a migration is deleted if it has a record and gone if it has none. -/
theorem mem_reconcile_of_addsTo (h : d.AddsTo name fs' fs) (hfs : KeysUnique MigrationFile.name fs)
    (hrs : KeysUnique Record.name rs) :
    m ∈ reconcile fs' rs ↔
      (m ∈ reconcile fs rs ∧ m.name ≠ name) ∨ ∃ r, withKey? Record.name name rs = some r ∧ deleted r = m := by
  obtain ⟨file, hfile, hname⟩ := h.exists_mem
  have hnone {r : Record} : withKey? MigrationFile.name r.name fs' = none ↔
      r.name = name ∨ withKey? MigrationFile.name r.name fs = none := by
    rw [withKey?_eq_none_iff, withKey?_eq_none_iff]
    constructor
    · intro hall
      by_cases hr : r.name = name
      · exact .inl hr
      · exact .inr fun f hf heq => hall f (h.mem_iff.2 ⟨hf, heq.trans_ne hr⟩) heq
    · rintro (hr | hall) f hf
      · exact (h.mem_iff.1 hf).2.trans_eq hr.symm
      · exact hall f (h.mem_iff.1 hf).1
  rw [mem_reconcile_iff (hfs.sublist (h.sublist.map _)) hrs, mem_reconcile_iff hfs hrs]
  constructor
  · rintro (⟨f, hf, rfl⟩ | ⟨r, hr, hwith, rfl⟩)
    · obtain ⟨hf, hne⟩ := h.mem_iff.1 hf
      exact .inl ⟨.inl ⟨f, hf, rfl⟩, by rwa [name_ofFile]⟩
    · rcases hnone.1 hwith with heq | hwith
      · exact .inr ⟨r, hrs.withKey?_eq_some_iff.2 ⟨hr, heq⟩, rfl⟩
      · have hne : r.name ≠ name := fun heq => withKey?_eq_none_iff.1 hwith file hfile (hname.trans heq.symm)
        exact .inl ⟨.inr ⟨r, hr, hwith, rfl⟩, hne⟩
  · rintro (⟨⟨f, hf, rfl⟩ | ⟨r, hr, hwith, rfl⟩, hne⟩ | ⟨r, hr, rfl⟩)
    · rw [name_ofFile] at hne
      exact .inl ⟨f, h.mem_iff.2 ⟨hf, hne⟩, rfl⟩
    · exact .inr ⟨r, hr, hnone.2 (.inr hwith), rfl⟩
    · exact .inr ⟨r, mem_of_withKey? hr, hnone.2 (.inl (key_of_withKey? hr)), rfl⟩

end Migration

namespace Deployment

variable {δ : Type} {server : Server δ} {w : Workspace} {s : Deployment δ} {place : Place} {node : FileNode}
  {name : String}

/-- A migration whose file is removed is listed as deleted if it has a record, and not at all if it has none; the others
are listed as before. -/
theorem list_remove (hserver : server.KeepsRecords) (hw : w.PrintsLog) (hs : s.NamesUnique)
    (hdirectory : s.files.IsDirectoryAt w.directory place) (hname : name ≠ "")
    (hnode : s.files.node? (place ++ [name ++ "." ++ Directory.extension]) = some node) (hfile : node.kind = .file) :
    let s' := { s with files := s.files.remove (place ++ [name ++ "." ++ Directory.extension]) }
    s'.NamesUnique ∧
      ∃ ms ms', s.run w server Migration.list = (.ok ms, s) ∧ s'.run w server Migration.list = (.ok ms', s') ∧
        ∀ m, m ∈ ms' ↔ (m ∈ ms ∧ m.name ≠ name) ∨ ∃ r, s.record? name = some r ∧ .deleted r = m := by
  intro s'
  refine ⟨⟨hs.files.remove _, hs.records⟩, ?_⟩
  obtain ⟨files, files', hfiles, hfiles', hadds⟩ := filesIn_remove hs.files hdirectory hname hnode hfile
  refine ⟨Migration.reconcile files (s.table.getD []), Migration.reconcile files' (s.table.getD []), ?_, ?_, ?_⟩
  · rw [run_list hserver hw, hfiles]
    rfl
  · rw [run_list hserver hw, hfiles']
    rfl
  · intro m
    rw [record?_eq]
    exact Migration.mem_reconcile_of_addsTo hadds (keysUnique_of_filesIn hs.files hfiles) hs.records

end Deployment

end SchemaMigration
