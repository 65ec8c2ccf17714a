import SchemaMigration.Proofs.NewListings

/-!
# New directories

Making directories leaves the listing of a directory that is there as it is (`filesIn_createDirectories`). In a tree
where everything stands in a directory (`FileTree.Rooted`), a directory that is made is empty, so that it has no more
files than one that is not there (`filesIn_createDirectories_of_none`). That needs a path without `..`: one that goes up
from a directory that is yet to be made may lead to a directory with files in it.
-/

namespace SchemaMigration

namespace FileTree

variable {t t' : FileTree} {place target : Place} {name : String} {names : List String} {node : FileNode}

/-- Everything in the tree stands in a directory. -/
def Rooted (t : FileTree) : Prop :=
  ∀ place name node, t.node? (place ++ [name]) = some node → t.node? place = some .directory

/-! ## Rooted trees -/

/-- The place is in a directory that is there. -/
def InDirectory (t : FileTree) (place : Place) : Prop :=
  t.node? place = some .directory ∨ ∃ parent name, place = parent ++ [name] ∧ t.node? parent = some .directory

theorem Rooted.dropLast (h : t.Rooted) (hplace : t.node? place = some .directory) :
    t.node? place.dropLast = some .directory := by
  rcases List.eq_nil_or_concat place with rfl | ⟨parent, name, rfl⟩
  · exact hplace
  · rw [List.concat_eq_append, List.dropLast_concat]
    exact h parent name _ (List.concat_eq_append ▸ hplace)

/-- A path leads to a place in a directory. -/
theorem Rooted.inDirectory (h : t.Rooted) (hplace : t.InDirectory place) (hfollow : t.follow place names = .ok target) :
    t.InDirectory target := by
  induction names generalizing place with
  | nil =>
    obtain rfl : place = target := Except.ok.inj hfollow
    exact hplace
  | cons name names ih =>
    rcases follow_cons_eq_ok_iff.1 hfollow with ⟨-, hrest⟩ | ⟨-, hnode, next, hstep, hrest⟩
    · exact ih hplace hrest
    · refine ih ?_ hrest
      rcases hstep with ⟨-, rfl⟩ | ⟨-, rfl⟩ | ⟨-, -, -, rfl⟩
      · exact .inl hnode
      · exact .inl (h.dropLast hnode)
      · exact .inr ⟨place, name, rfl, hnode⟩

theorem Rooted.put (h : t.Rooted) (hplace : t.InDirectory place) (hnone : t.node? place = none) (node : FileNode) :
    (t.put place node).Rooted := by
  have hextends := extends_put hnone node
  intro other name found hfound
  by_cases heq : other ++ [name] = place
  · subst heq
    rcases hplace with hthere | ⟨parent, last, hlast, hparent⟩
    · cases hnone.symm.trans hthere
    · obtain ⟨rfl, -⟩ := List.append_inj' hlast rfl
      exact hextends _ _ hparent
  · rw [node?_put_of_ne heq] at hfound
    exact hextends _ _ (h other name found hfound)

theorem Rooted.createDirectoriesFrom (h : t.Rooted) (hplace : t.InDirectory place) (names : List String) :
    (t.createDirectoriesFrom place names).2.Rooted := by
  induction names generalizing t place with
  | nil => exact h
  | cons name names ih =>
    rw [FileTree.createDirectoriesFrom]
    split
    · exact h
    · next next hnext =>
      have hin : t.InDirectory next := h.inDirectory hplace hnext
      split
      · exact ih h hin
      · exact h
      · next hnone => exact ih (h.put hin hnone _) (.inl (node?_put_self (ne_nil_of_node?_eq_none hnone)))

theorem Rooted.createDirectories (h : t.Rooted) (path : String) : (t.createDirectories path).2.Rooted := by
  unfold FileTree.createDirectories
  split
  · exact h
  · split
    · exact h
    · exact h.createDirectoriesFrom (.inl rfl) (Path.names path)

theorem Rooted.create (h : t.Rooted) {path : String} (hcreate : t.create path node = .ok t') : t'.Rooted := by
  obtain ⟨place, hresolve, hnone, rfl⟩ := create_eq_ok hcreate
  exact h.put (h.inDirectory (.inl rfl) (resolve_eq_ok_iff.1 hresolve).2) hnone node

/-! ## Paths that only go down -/

/-- The names that lead one step down each. -/
def downward (names : List String) : Place :=
  names.filter fun name => name != "" && name != "."

theorem downward_cons (name : String) (names : List String) :
    downward (name :: names) = downward [name] ++ downward names :=
  List.filter_append (p := _) [name] names

/-- A name other than `..` leads one step down or nowhere. -/
theorem eq_of_follow_singleton (hup : name ≠ "..") (h : t.follow place [name] = .ok target) :
    target = place ++ downward [name] := by
  rcases follow_cons_eq_ok_iff.1 h with ⟨rfl, hrest⟩ | ⟨hname, -, next, hstep, hrest⟩
  · simpa [downward] using (Except.ok.inj hrest).symm
  · obtain rfl : next = target := Except.ok.inj hrest
    rcases hstep with ⟨rfl, rfl⟩ | ⟨hdots, -⟩ | ⟨hdot, -, -, rfl⟩
    · simp [downward]
    · exact absurd hdots hup
    · simp [downward, hname, hdot]

theorem eq_of_follow (hup : ".." ∉ names) (h : t.follow place names = .ok target) :
    target = place ++ downward names := by
  induction names generalizing place with
  | nil => simpa [downward] using (Except.ok.inj h).symm
  | cons name names ih =>
    rw [List.mem_cons, not_or] at hup
    rw [← List.singleton_append, follow_append] at h
    cases hnext : t.follow place [name] with
    | error e =>
      rw [hnext] at h
      cases h
    | ok next =>
      rw [hnext] at h
      rw [ih hup.2 h, eq_of_follow_singleton (Ne.symm hup.1) hnext, List.append_assoc, ← downward_cons]

theorem Rooted.node?_of_append {rest : Place} (h : t.Rooted) (hrest : rest ≠ [])
    (hnode : t.node? (place ++ rest) = some node) : t.node? place = some .directory := by
  induction rest generalizing place with
  | nil => exact absurd rfl hrest
  | cons name rest ih =>
    rw [List.append_cons] at hnode
    by_cases hnil : rest = []
    · rw [hnil, List.append_nil] at hnode
      exact h place name _ hnode
    · exact h place name _ (ih hnil hnode)

/-- What was there before can be reached as before. -/
theorem Rooted.follow_of_extends (h : t.Rooted) (hextends : t.Extends t') (hup : ".." ∉ names)
    (hfollow : t'.follow place names = .ok target) (hnode : t.node? target = some node) :
    t.follow place names = .ok target := by
  induction names generalizing place with
  | nil => exact hfollow
  | cons name names ih =>
    have htarget := eq_of_follow hup hfollow
    have hup' : ".." ∉ names := fun hmem => hup (List.mem_cons_of_mem name hmem)
    refine follow_cons_eq_ok_iff.2 ?_
    rcases follow_cons_eq_ok_iff.1 hfollow with ⟨rfl, hrest⟩ | ⟨hname, hplace, next, hstep, hrest⟩
    · exact .inl ⟨rfl, ih hup' hrest⟩
    · refine .inr ⟨hname, ?_, next, hstep, ih hup' hrest⟩
      by_cases hdown : downward (name :: names) = []
      · rw [hdown, List.append_nil] at htarget
        subst htarget
        rw [hnode, ← hextends _ _ hnode, hplace]
      · exact h.node?_of_append hdown (htarget ▸ hnode)

/-- Where nothing is made, all that is made is as one likes. -/
theorem exists_made_nothing (t : FileTree) (allowed : Place × FileNode → Prop) :
    ∃ made, t.nodes = t.nodes ++ made ∧ ∀ entry ∈ made, allowed entry :=
  ⟨[], (List.append_nil _).symm, fun _ h => absurd h List.not_mem_nil⟩

/-- The directories that are made on a path that only goes down are on it. -/
theorem exists_made_from (t : FileTree) (place : Place) (names : List String) :
    ∃ made, (t.createDirectoriesFrom place names).2.nodes = t.nodes ++ made ∧
      ∀ entry ∈ made, entry.2 = .directory ∧
        (".." ∉ names → entry.1.length ≤ (place ++ downward names).length) := by
  induction names generalizing t place with
  | nil => exact t.exists_made_nothing _
  | cons name names ih =>
    rw [createDirectoriesFrom]
    split
    · exact t.exists_made_nothing _
    · next next hnext =>
      have hplace (hup : ".." ∉ name :: names) :
          ".." ∉ names ∧ place ++ downward (name :: names) = next ++ downward names := by
        rw [List.mem_cons, not_or] at hup
        rw [eq_of_follow_singleton (Ne.symm hup.1) hnext, downward_cons, List.append_assoc]
        exact ⟨hup.2, rfl⟩
      split
      · obtain ⟨made, hmade, hall⟩ := ih t next
        refine ⟨made, hmade, fun entry hentry => ⟨(hall entry hentry).1, fun hup => ?_⟩⟩
        rw [(hplace hup).2]
        exact (hall entry hentry).2 (hplace hup).1
      · exact t.exists_made_nothing _
      · next hnone =>
        obtain ⟨made, hmade, hall⟩ := ih (t.put next .directory) next
        refine ⟨(next, .directory) :: made, ?_, List.forall_mem_cons.2 ⟨⟨rfl, fun hup => ?_⟩, fun entry hentry => ?_⟩⟩
        · rw [hmade, nodes_put_of_none hnone, List.append_assoc]
          rfl
        · rw [(hplace hup).2, List.length_append]
          exact Nat.le_add_right _ _
        · refine ⟨(hall entry hentry).1, fun hup => ?_⟩
          rw [(hplace hup).2]
          exact (hall entry hentry).2 (hplace hup).1

/-- Directories are made, and none below a path that only goes down. -/
theorem exists_made (t : FileTree) (path : String) :
    ∃ made, (t.createDirectories path).2.nodes = t.nodes ++ made ∧
      ∀ entry ∈ made, entry.2 = .directory ∧
        (".." ∉ Path.names path → entry.1.length ≤ (downward (Path.names path)).length) := by
  unfold createDirectories
  split
  · exact t.exists_made_nothing _
  · split
    · exact t.exists_made_nothing _
    · exact t.exists_made_from [] (Path.names path)

end FileTree

/-! ## Listings of new directories -/

section

open FileTree (entriesAt)

variable {t : FileTree} {w : Workspace}

/-- Making directories leaves the listing of a directory that is there as it is. -/
theorem filesIn_createDirectories (hthere : (t.kind? w.directory).isSome) (path : String) :
    w.filesIn (t.createDirectories path).2 = w.filesIn t := by
  have hextends := (t.sameFiles_createDirectories path).keeps
  obtain ⟨made, hmade, hall⟩ := t.exists_made path
  generalize (t.createDirectories path).2 = t' at hextends hmade ⊢
  obtain ⟨kind, hkind⟩ := Option.isSome_iff_exists.1 hthere
  cases kind with
  | file => rw [Workspace.filesIn, Workspace.filesIn, hkind, hextends.kind? hkind]
  | directory =>
    obtain ⟨place, hplace⟩ := FileTree.exists_isDirectoryAt hkind
    have hkinds : ∀ entry ∈ entriesAt place made, entry.2 = .directory := by
      intro entry hentry
      obtain ⟨node, hnode, hkind⟩ := FileTree.mem_entriesAt_iff.1 hentry
      obtain rfl : node = .directory := (hall _ hnode).1
      exact hkind
    have hentries : entriesAt place t'.nodes = entriesAt place t.nodes ++ entriesAt place made := by
      rw [hmade, entriesAt, List.filterMap_append]
      rfl
    rw [filesIn_eq_of_isDirectoryAt hplace, filesIn_eq_of_isDirectoryAt (hextends.isDirectoryAt hplace), hentries,
      Directory.migrationFiles_append_directories hkinds]

/-- A directory that was not there before has no files. -/
theorem filesIn_createDirectories_of_none (ht : t.Rooted) (hup : ".." ∉ Path.names w.directory)
    (hnone : t.kind? w.directory = none) : w.filesIn (t.createDirectories w.directory).2 = w.filesIn t := by
  have hbefore : w.filesIn t = .ok [] := by rw [Workspace.filesIn, hnone]
  have hsame := t.sameFiles_createDirectories w.directory
  obtain ⟨made, hmade, hall⟩ := t.exists_made w.directory
  generalize (t.createDirectories w.directory).2 = t' at hsame hmade ⊢
  rw [hbefore]
  cases hkind : t'.kind? w.directory with
  | none => rw [Workspace.filesIn, hkind]
  | some kind =>
    obtain ⟨place, node, hresolve, hnode, rfl⟩ := FileTree.kind?_eq_some_iff.1 hkind
    obtain ⟨hpath, hfollow⟩ := FileTree.resolve_eq_ok_iff.1 hresolve
    have hnew : t.node? place = none := by
      cases hold : t.node? place with
      | none => rfl
      | some old =>
        -- what stood there could be reached before
        have hfollow' := ht.follow_of_extends hsame.keeps hup hfollow hold
        have hkind' := FileTree.kind?_eq_some_iff.2
          ⟨place, old, FileTree.resolve_eq_ok_iff.2 ⟨hpath, hfollow'⟩, hold, rfl⟩
        cases hnone.symm.trans hkind'
    obtain rfl : node = .directory := by
      by_contra hne
      cases hnew.symm.trans (hsame.adds place node hnode hne)
    have hentries : entriesAt place t'.nodes = [] := by
      refine List.eq_nil_iff_forall_not_mem.2 fun entry hentry => ?_
      obtain ⟨child, hchild, -⟩ := FileTree.mem_entriesAt_iff.1 hentry
      rcases List.mem_append.1 (hmade ▸ hchild) with hold | hmade
      · cases hthere : t.node? (place ++ [entry.1]) with
        | none => exact FileTree.ne_of_node?_eq_none hthere _ hold rfl
        | some _ => cases hnew.symm.trans (ht _ _ _ hthere)
      · have hle := (hall _ hmade).2 hup
        rw [List.length_append, FileTree.eq_of_follow hup hfollow] at hle
        exact absurd hle (Nat.not_succ_le_self _)
    rw [filesIn_eq_of_isDirectoryAt ⟨hresolve, hnode⟩, hentries, Directory.migrationFiles_eq, List.filterMap_nil,
      List.mergeSort_nil]

end

end SchemaMigration
