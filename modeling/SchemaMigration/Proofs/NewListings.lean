import SchemaMigration.Proofs.Listings
import SchemaMigration.Proofs.NewFiles

/-!
# New files in listings

A file that is created in a directory stands directly in it (`FileTree.resolve_join`), and the listing of the directory
then has one more entry, in its place (`filesIn_create`).
-/

namespace SchemaMigration

/-! ## Paths of files in a directory -/

namespace Path

/-- A file may have that name in a directory. -/
structure IsFileName (file : String) : Prop where
  noSlash : '/' ∉ file.toList
  ne_empty : file ≠ ""
  ne_dot : file ≠ "."
  ne_dots : file ≠ ".."

theorem names_append_slash (front file : String) : names (front ++ "/" ++ file) = names front ++ names file := by
  have htext : (front ++ "/" ++ file).toList = front.toList ++ '/' :: file.toList := by
    simp [String.toList_append]
  have hsplit := List.splitOnP_append_cons (p := (· == '/')) front.toList file.toList (beq_self_eq_true '/')
  rw [names, htext, List.splitOn, hsplit, List.map_append]
  rfl

theorem exists_of_endsWith {dir : String} (h : dir.endsWith "/" = true) : ∃ front, dir = front ++ "/" := by
  obtain ⟨front, hfront⟩ := String.Slice.endsWith_string_iff.1 h
  refine ⟨String.ofList front, String.toList_inj.1 ?_⟩
  rw [String.toList_append, String.toList_ofList, hfront]
  simp

section

variable {dir file : String} (hfile : IsFileName file)

include hfile

theorem IsFileName.names_eq : names file = [file] := by
  rw [names, List.splitOn_eq_singleton hfile.noSlash, List.map_singleton, String.ofList_toList]

theorem IsFileName.not_startsWith : file.startsWith "/" = false := by
  rw [Bool.eq_false_iff]
  intro h
  exact hfile.noSlash ((String.startsWith_string_iff.1 h).subset (by simp))

/-- The path of a file in a directory is that of the directory, a slash if there is none at its end, and the file. -/
theorem IsFileName.join_eq (hdir : dir ≠ "") :
    (∃ front, dir = front ++ "/" ∧ join dir file = front ++ "/" ++ file) ∨ join dir file = dir ++ "/" ++ file := by
  rw [join, hfile.not_startsWith, Bool.false_or, if_neg (by simpa using hdir)]
  by_cases hends : dir.endsWith "/" = true
  · obtain ⟨front, rfl⟩ := exists_of_endsWith hends
    exact .inl ⟨front, rfl, if_pos hends⟩
  · exact .inr (if_neg hends)

end

end Path

namespace FileTree

variable {t t' : FileTree} {place target : Place} {dir file : String} {node : FileNode}

theorem follow_append (t : FileTree) (place : Place) (names more : List String) :
    t.follow place (names ++ more) = (t.follow place names).bind fun next => t.follow next more := by
  induction names generalizing place with
  | nil => rfl
  | cons name names ih =>
    rw [List.cons_append, follow, follow]
    split
    · exact ih place
    · split
      · rfl
      · split
        · exact ih place
        · split
          · exact ih place.dropLast
          · split
            · rfl
            · exact ih (place ++ [name])
      · rfl

/-- A file name leads one step down from a directory. -/
theorem follow_isFileName (hfile : Path.IsFileName file) (h : t.follow place [file] = .ok target) :
    t.node? place = some .directory ∧ target = place ++ [file] := by
  rcases follow_cons_eq_ok_iff.1 h with ⟨hempty, -⟩ | ⟨-, hnode, next, hstep, hnext⟩
  · exact absurd hempty hfile.ne_empty
  · obtain rfl : next = target := Except.ok.inj hnext
    rcases hstep with ⟨hdot, -⟩ | ⟨hdots, -⟩ | ⟨-, -, -, rfl⟩
    · exact absurd hdot hfile.ne_dot
    · exact absurd hdots hfile.ne_dots
    · exact ⟨hnode, rfl⟩

theorem follow_names_join (t : FileTree) (hdir : dir ≠ "") (hfile : Path.IsFileName file) :
    t.follow [] (Path.names (Path.join dir file)) =
      (t.follow [] (Path.names dir)).bind fun place => t.follow place [file] := by
  rcases hfile.join_eq hdir with ⟨front, rfl, hjoin⟩ | hjoin
  · have hnames : Path.names (front ++ "/") = Path.names front ++ [""] := by
      have h := Path.names_append_slash front ""
      rwa [String.append_empty] at h
    rw [hjoin, Path.names_append_slash, hfile.names_eq, hnames, follow_append, follow_append]
    cases t.follow [] (Path.names front) <;> rfl
  · rw [hjoin, Path.names_append_slash, hfile.names_eq, follow_append]

theorem Resolvable.of_append {rest : String} (h : Resolvable (dir ++ rest)) (hdir : dir ≠ "") : Resolvable dir where
  noNul := by
    have hnul := h.noNul
    rw [String.toList_append, List.any_append, Bool.or_eq_false_iff] at hnul
    exact hnul.1
  ne_empty := hdir
  relative := by
    have hrelative := h.relative
    rw [Bool.eq_false_iff, ne_eq, String.startsWith_string_iff] at hrelative ⊢
    rw [String.toList_append] at hrelative
    exact fun hslash => hrelative (hslash.trans (List.prefix_append _ _))
  length_le := by
    have hlength := h.length_le
    rw [String.utf8ByteSize_append] at hlength
    exact Nat.le_of_add_right_le hlength

/-- What a path with a directory in front leads to is directly in that directory. -/
theorem resolve_join (hdir : dir ≠ "") (hfile : Path.IsFileName file)
    (h : t.resolve (Path.join dir file) = .ok target) :
    ∃ place, t.resolve dir = .ok place ∧ t.node? place = some .directory ∧ target = place ++ [file] := by
  obtain ⟨rest, hrest⟩ : ∃ rest, Path.join dir file = dir ++ rest := by
    rcases hfile.join_eq hdir with ⟨front, rfl, hjoin⟩ | hjoin
    · exact ⟨file, hjoin⟩
    · exact ⟨"/" ++ file, hjoin.trans (String.append_assoc ..)⟩
  obtain ⟨hpath, hfollow⟩ := resolve_eq_ok_iff.1 h
  rw [follow_names_join t hdir hfile] at hfollow
  cases hplace : t.follow [] (Path.names dir) with
  | error e =>
    rw [hplace] at hfollow
    cases hfollow
  | ok place =>
    rw [hplace] at hfollow
    exact ⟨place, resolve_eq_ok_iff.2 ⟨(hrest ▸ hpath).of_append hdir, hplace⟩, follow_isFileName hfile hfollow⟩

end FileTree

/-! ## Migration files among entries -/

namespace Directory

variable {d : Directory} {entries : List (String × FileKind)} {name : String}

/-- Directories do not count. -/
theorem migrationFiles_append_directories {directories : List (String × FileKind)}
    (h : ∀ entry ∈ directories, entry.2 = .directory) :
    d.migrationFiles (entries ++ directories) = d.migrationFiles entries := by
  have hnone : directories.filterMap d.fileOf? = [] := by
    refine List.filterMap_eq_nil_iff.2 fun entry hentry => Option.eq_none_iff_forall_ne_some.2 fun file hfile => ?_
    rw [(fileOf?_eq_some_iff.1 hfile).1] at hentry
    cases h _ hentry
  rw [migrationFiles_eq, List.filterMap_append, hnone, List.append_nil, migrationFiles_eq]

/-- The migration `name` stands in between those with lesser and those with greater names, and else nothing is new. -/
def AddsTo (d : Directory) (name : String) (files files' : List MigrationFile) : Prop :=
  ∃ lesser greater, files = lesser ++ greater ∧ files' = lesser ++ { name, path := d.filePath name } :: greater ∧
    (∀ file ∈ lesser, file.name < name) ∧ ∀ file ∈ greater, name < file.name

theorem addsTo_migrationFiles (hname : name ≠ "") (hnew : (name ++ "." ++ extension, .file) ∉ entries) :
    d.AddsTo name (d.migrationFiles entries) (d.migrationFiles (entries ++ [(name ++ "." ++ extension, .file)])) := by
  have hfile : d.fileOf? (name ++ "." ++ extension, .file) = some { name, path := d.filePath name } :=
    fileOf?_eq_some_iff.2 ⟨rfl, hname, rfl⟩
  have hne {file : MigrationFile} (h : file ∈ d.migrationFiles entries) : name ≠ file.name := by
    rintro rfl
    exact hnew (mem_migrationFiles_iff.1 h).1
  obtain ⟨lesser, greater, hcons, hold, hlesser⟩ := List.mergeSort_cons name_le_trans name_le_total
    { name, path := d.filePath name } (entries.filterMap d.fileOf?)
  rw [← List.filterMap_cons_some hfile, ← migrationFiles_eq] at hcons
  rw [← migrationFiles_eq] at hold
  have hsorted := d.pairwise_migrationFiles ((name ++ "." ++ extension, .file) :: entries)
  rw [hcons] at hsorted
  rw [migrationFiles_eq_of_perm (List.perm_append_singleton _ _)]
  refine ⟨lesser, greater, hold, hcons, fun file hmem => ?_, fun file hmem => ?_⟩
  · simpa using hlesser file hmem
  · have hle : name ≤ file.name := List.rel_of_pairwise_cons (List.pairwise_append.1 hsorted).2.1 hmem
    have hold : file ∈ d.migrationFiles entries := hold ▸ List.mem_append_right lesser hmem
    exact String.not_le.1 fun hge => hne hold (String.le_antisymm hle hge)

section

variable {files files' : List MigrationFile}

theorem AddsTo.sublist (h : d.AddsTo name files files') : files.Sublist files' := by
  obtain ⟨lesser, greater, rfl, rfl, -, -⟩ := h
  exact (List.sublist_cons_self _ greater).append_left lesser

theorem AddsTo.exists_mem (h : d.AddsTo name files files') : ∃ file ∈ files', file.name = name := by
  obtain ⟨lesser, greater, -, rfl, -, -⟩ := h
  exact ⟨_, List.mem_append_right lesser List.mem_cons_self, rfl⟩

theorem AddsTo.mem_iff (h : d.AddsTo name files files') {file : MigrationFile} :
    file ∈ files ↔ file ∈ files' ∧ file.name ≠ name := by
  obtain ⟨lesser, greater, rfl, rfl, hlesser, hgreater⟩ := h
  simp only [List.mem_append, List.mem_cons]
  constructor
  · rintro (hmem | hmem)
    · exact ⟨.inl hmem, fun heq => String.lt_irrefl name (heq ▸ hlesser file hmem)⟩
    · exact ⟨.inr (.inr hmem), fun heq => String.lt_irrefl name (heq ▸ hgreater file hmem)⟩
  · rintro ⟨hmem | rfl | hmem, hname⟩
    · exact .inl hmem
    · exact absurd rfl hname
    · exact .inr hmem

end

end Directory

/-! ## Directories with new nodes -/

namespace FileTree

variable {t t' : FileTree} {place : Place} {path : String} {node : FileNode}

theorem ne_of_node?_eq_none (h : t.node? place = none) : ∀ entry ∈ t.nodes, entry.1 ≠ place := by
  have hplace : place.isEmpty = false := by simpa using ne_nil_of_node?_eq_none h
  have hlookup : t.nodes.lookup place = none := by simpa [node?, hplace] using h
  exact fun entry hentry => Ne.symm (by simpa using List.lookup_eq_none_iff.1 hlookup entry hentry)

theorem mem_nodes_of_node? (h : t.node? place = some node) (hplace : place ≠ []) : (place, node) ∈ t.nodes := by
  have hlookup : t.nodes.lookup place = some node := by simpa [node?, hplace] using h
  obtain ⟨before, after, hnodes, -⟩ := List.lookup_eq_some_iff.1 hlookup
  rw [hnodes]
  exact List.mem_append_right before List.mem_cons_self

theorem nodes_put_of_none (h : t.node? place = none) (node : FileNode) :
    (t.put place node).nodes = t.nodes ++ [(place, node)] := by
  have hfilter : t.nodes.filter (·.1 != place) = t.nodes :=
    List.filter_eq_self.2 fun entry hentry => bne_iff_ne.2 (ne_of_node?_eq_none h entry hentry)
  rw [put, hfilter]

/-- The path leads to a directory at a place. -/
def IsDirectoryAt (t : FileTree) (path : String) (place : Place) : Prop :=
  t.resolve path = .ok place ∧ t.node? place = some .directory

theorem Extends.isDirectoryAt (h : t.Extends t') (hplace : t.IsDirectoryAt path place) : t'.IsDirectoryAt path place :=
  ⟨h.resolve hplace.1, h place _ hplace.2⟩

theorem kind?_eq_some_iff {kind : FileKind} :
    t.kind? path = some kind ↔
      ∃ place node, t.resolve path = .ok place ∧ t.node? place = some node ∧ node.kind = kind := by
  unfold kind? find
  cases t.resolve path with
  | error e => simp [bind, Except.bind, Except.toOption]
  | ok place =>
    simp only [bind, Except.bind]
    cases hnode : t.node? place <;>
      simp [pure, Except.pure, throw, throwThe, MonadExceptOf.throw, Except.toOption, hnode]

theorem Extends.kind? (h : t.Extends t') {kind : FileKind} (hkind : t.kind? path = some kind) :
    t'.kind? path = some kind := by
  obtain ⟨place, node, hresolve, hnode, rfl⟩ := kind?_eq_some_iff.1 hkind
  exact kind?_eq_some_iff.2 ⟨place, node, h.resolve hresolve, h place node hnode, rfl⟩

theorem exists_isDirectoryAt (h : t.kind? path = some .directory) : ∃ place, t.IsDirectoryAt path place := by
  obtain ⟨place, node, hresolve, hnode, hkind⟩ := kind?_eq_some_iff.1 h
  cases node with
  | directory => exact ⟨place, hresolve, hnode⟩
  | text | octets | database => cases hkind

/-- Those of some nodes that stand directly at a place, as entries. -/
def entriesAt (place : Place) (nodes : List (Place × FileNode)) : List (String × FileKind) :=
  nodes.filterMap fun (other, node) => (nameIn? place other).map fun name => (name, node.kind)

theorem mem_entriesAt_iff {nodes : List (Place × FileNode)} {entry : String × FileKind} :
    entry ∈ entriesAt place nodes ↔ ∃ node, (place ++ [entry.1], node) ∈ nodes ∧ entry.2 = node.kind := by
  constructor
  · intro h
    obtain ⟨⟨other, node⟩, hnode, hentry⟩ := List.mem_filterMap.1 h
    obtain ⟨name, hname, rfl⟩ := Option.map_eq_some_iff.1 hentry
    exact ⟨node, eq_of_nameIn? hname ▸ hnode, rfl⟩
  · rintro ⟨node, hnode, hkind⟩
    refine List.mem_filterMap.2 ⟨_, hnode, Option.map_eq_some_iff.2 ⟨entry.1, by simp [nameIn?], ?_⟩⟩
    exact Prod.ext rfl hkind.symm

theorem IsDirectoryAt.entries (h : t.IsDirectoryAt path place) : t.entries path = .ok (entriesAt place t.nodes) := by
  unfold FileTree.entries
  rw [h.1]
  simp only [bind, Except.bind, h.2]
  rfl

theorem entriesAt_append_file (place : Place) (nodes : List (Place × FileNode)) (file content : String) :
    entriesAt place (nodes ++ [(place ++ [file], .text content)]) = entriesAt place nodes ++ [(file, .file)] := by
  have hname : nameIn? place (place ++ [file]) = some file := by simp [nameIn?]
  simp [entriesAt, List.filterMap_append, hname, FileNode.kind]

end FileTree

/-! ## Listings -/

section

open FileTree (entriesAt)

variable {t t' : FileTree} {w : Workspace} {place : Place} {name content : String}

theorem filesIn_eq_of_isDirectoryAt (h : t.IsDirectoryAt w.directory place) :
    w.filesIn t = .ok (w.files.migrationFiles (entriesAt place t.nodes)) := by
  have hkind : t.kind? w.directory = some .directory := FileTree.kind?_eq_some_iff.2 ⟨place, _, h.1, h.2, rfl⟩
  rw [Workspace.filesIn, hkind, h.entries]
  rfl

theorem isFileName_of_noSlash (h : '/' ∉ name.toList) : Path.IsFileName (name ++ "." ++ Directory.extension) := by
  have hlength {short : String} (hshort : short.length < 5) : name ++ "." ++ Directory.extension ≠ short := by
    rintro rfl
    have hdot : ".".length = 1 := rfl
    have hyaml : Directory.extension.length = 4 := rfl
    rw [String.length_append, String.length_append] at hshort
    omega
  refine ⟨?_, hlength (by decide), hlength (by decide), hlength (by decide)⟩
  simpa [String.toList_append, Directory.extension] using h

/-- A migration file that is created stands directly in the directory, and is listed in its place. -/
theorem filesIn_create (hdir : w.directory ≠ "") (hname : name ≠ "") (hslash : '/' ∉ name.toList)
    (h : t.create (w.files.filePath name) (.text content) = .ok t') :
    ∃ place files files', t.resolve w.directory = .ok place ∧
      t'.resolve (w.files.filePath name) = .ok (place ++ [name ++ "." ++ Directory.extension]) ∧
      w.filesIn t = .ok files ∧ w.filesIn t' = .ok files' ∧ w.files.AddsTo name files files' := by
  have hextends := FileTree.extends_create h
  obtain ⟨target, hresolve, hnone, rfl⟩ := FileTree.create_eq_ok h
  have hfile := isFileName_of_noSlash hslash
  obtain ⟨place, hplace, hnode, rfl⟩ := FileTree.resolve_join hdir hfile hresolve
  have hdirectory : t.IsDirectoryAt w.directory place := ⟨hplace, hnode⟩
  have hfiles' := filesIn_eq_of_isDirectoryAt (hextends.isDirectoryAt hdirectory)
  rw [FileTree.nodes_put_of_none hnone, FileTree.entriesAt_append_file] at hfiles'
  refine ⟨place, _, _, hplace, hextends.resolve hresolve, filesIn_eq_of_isDirectoryAt hdirectory, hfiles', ?_⟩
  refine Directory.addsTo_migrationFiles hname fun hmem => ?_
  obtain ⟨node, hnode, -⟩ := FileTree.mem_entriesAt_iff.1 hmem
  exact FileTree.ne_of_node?_eq_none hnone _ hnode rfl

end

end SchemaMigration
