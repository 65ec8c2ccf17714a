import SchemaMigration.Migration.Planner
import SchemaMigration.Proofs.ExactDiff

/-!
# When there is nothing to migrate

Planning gives no statements exactly if the declared schema is up to date on the server (`Planner.query_eq_none_iff`).
What that means is said of the tables alone (`Planner.UpToDate`): the two sides of a table are compared with each in its
own setting, and the only differences that may remain are tables without columns on one side.

* A difference that is no such table always gives a statement, even if it is only that of an option
  (`TableChanges.up_alterations_ne_nil`), so nothing that is detected gets lost on the way (`compile_isEmpty_iff`).
* The detector compares both sides in the setting of the observed table. Where a table has another character set or
  collation than declared, that is a difference already, so that no other one can hide behind it
  (`Table.equivalentIn_own_iff`).
-/

namespace SchemaMigration

/-! ## Differences without statements -/

theorem dropsToFront_eq_nil_iff {α : Type} {text : α → String} {xs : List α} :
    dropsToFront text xs = [] ↔ xs = [] := by
  rw [dropsToFront_eq, ← List.length_eq_zero_iff, List.length_append, ← List.length_eq_length_filter_add,
    List.length_eq_zero_iff]

theorem TableChanges.up_alterations_ne_nil {c : TableChanges} (h : c.isEmpty = false) (d : Defaults) :
    (c.alterations d).up ≠ [] := by
  intro hup
  have hparts : (c.optionAlterations d).up ++ (c.nestedAlterations d).up = [] := dropsToFront_eq_nil_iff.1 hup
  obtain ⟨hoptions, hnested⟩ := List.append_eq_nil_iff.1 hparts
  have hflags : c.engineChanged = false ∧ c.charsetChanged = false ∧ c.collationChanged = false := by
    simp only [optionAlterations, Reversible.up_append, List.append_eq_nil_iff] at hoptions
    obtain ⟨⟨hengine, hcharset⟩, hcollation⟩ := hoptions
    refine ⟨?_, ?_, ?_⟩
    · cases he : c.engineChanged with
      | false => rfl
      | true => rw [he] at hengine; cases hengine
    · cases he : c.charsetChanged with
      | false => rfl
      | true => rw [he] at hcharset; cases hcharset
    · cases he : c.collationChanged with
      | false => rfl
      | true => rw [he] at hcollation; cases hcollation
  have hlists : c.columns = [] ∧ c.indexes = [] ∧ c.relations = [] := by
    simp only [nestedAlterations, Reversible.up_concat, List.flatMap_append, List.flatMap_map,
      List.append_eq_nil_iff, List.flatMap_eq_nil_iff] at hnested
    obtain ⟨⟨hcolumns, hindexes⟩, hrelations⟩ := hnested
    refine ⟨List.eq_nil_iff_forall_not_mem.2 fun x hx => ?_, List.eq_nil_iff_forall_not_mem.2 fun x hx => ?_,
      List.eq_nil_iff_forall_not_mem.2 fun x hx => ?_⟩
    · have hnone := hcolumns x hx
      cases x <;> cases hnone
    · have hnone := hindexes x hx
      cases x <;> cases hnone
    · have hnone := hrelations x hx
      cases x <;> cases hnone
  obtain ⟨hengine, hcharset, hcollation⟩ := hflags
  obtain ⟨hcolumns, hindexes, hrelations⟩ := hlists
  simp [isEmpty, hengine, hcharset, hcollation, hcolumns, hindexes, hrelations] at h

/-- A difference is without statements exactly if it is skipped. -/
theorem TableDiff.up_statements_eq_nil_iff {diff : TableDiff} (h : ∀ c, diff = .altered c → c.isEmpty = false)
    (d : Defaults) : (diff.statements d).up = [] ↔ diff.isSkipped = true := by
  cases hs : diff.isSkipped with
  | true => simp [statements, hs]
  | false =>
    cases diff with
    | added t | removed t => simp [statements, hs, Reversible.pair]
    | altered c => simpa [statements, isSkipped, Reversible.map] using c.up_alterations_ne_nil (h c rfl) d

/-- Differences give no statement exactly if every one of them is skipped. -/
theorem compile_isEmpty_iff {diffs : List TableDiff} (h : ∀ c, TableDiff.altered c ∈ diffs → c.isEmpty = false)
    (d : Defaults) : (compile diffs d).isEmpty = true ↔ ∀ diff ∈ diffs, diff.isSkipped = true := by
  simp only [compile, Reversible.isEmpty, Bool.and_eq_true, List.isEmpty_iff, Reversible.up_concat,
    Reversible.down_concat, List.flatMap_map, List.flatMap_eq_nil_iff]
  constructor
  · rintro ⟨hup, -⟩ diff hdiff
    exact (TableDiff.up_statements_eq_nil_iff (fun c hc => h c (hc ▸ hdiff)) d).1 (hup diff hdiff)
  · intro hskipped
    exact ⟨fun diff hdiff => by simp [TableDiff.statements, hskipped diff hdiff],
      fun diff hdiff => by simp [TableDiff.statements, hskipped diff hdiff]⟩

/-! ## Planning -/

namespace Planner

/-- A table that a comparison looks at: it is neither the table of records nor ignored. -/
def Counts (p : Planner) (name : String) : Prop :=
  name ≠ p.recordTable ∧ name ∉ p.ignored

/-- The declared schema is what the server has, tables without columns on one side aside. -/
structure UpToDate (p : Planner) (declared observed : Schema) : Prop where
  ofDeclared : ∀ t ∈ declared.tables, p.Counts t.name →
    ((∀ u ∈ observed.tables, u.name ≠ t.name) ∧ t.columns = []) ∨
      ∃ u ∈ observed.tables, t.EquivalentIn observed.defaults (t.textSetting observed.defaults)
        (u.textSetting observed.defaults) u
  ofObserved : ∀ u ∈ observed.tables, p.Counts u.name → (∀ t ∈ declared.tables, t.name ≠ u.name) → u.columns = []

section

variable {p : Planner} {declared observed : Schema}

/-- The differences that planning looks at are those between the tables with one name, for each name that counts. -/
theorem mem_differences_iff (hd : declared.NamesUnique) (ho : observed.NamesUnique) {diff : TableDiff} :
    diff ∈ p.differences declared observed ↔
      p.Counts diff.name ∧
        differenceAt? (Schema.alteredTable? observed.defaults) .added .removed
          (withKey? Table.name diff.name declared.tables) (withKey? Table.name diff.name observed.tables) =
            some diff := by
  rw [differences, Schema.mem_diff_iff (hd.without _) (ho.without _), Schema.withKey?_without, Schema.withKey?_without]
  by_cases hr : diff.name = p.recordTable
  · have hcontains : [p.recordTable].contains diff.name = true := by simp [hr]
    rw [if_pos hcontains, if_pos hcontains]
    exact ⟨fun h => (nomatch h.2), fun h => absurd hr h.1.1⟩
  · have hcontains : [p.recordTable].contains diff.name = false := by simpa using hr
    rw [hcontains]
    exact and_congr_left fun _ => ⟨fun hi => ⟨hr, hi⟩, fun hcounts => hcounts.2⟩

theorem justified_of_mem_differences (hd : declared.NamesUnique) (ho : observed.NamesUnique) {diff : TableDiff}
    (h : diff ∈ p.differences declared observed) : diff.Justified declared observed :=
  Schema.justified_of_differenceAt? hd ho ((mem_differences_iff hd ho).1 h).2

theorem query?_eq_none_iff (hd : declared.NamesUnique) (ho : observed.NamesUnique) :
    p.query? declared observed = none ↔ ∀ diff ∈ p.differences declared observed, diff.isSkipped = true := by
  rw [← compile_isEmpty_iff (fun c hc => (justified_of_mem_differences hd ho hc).2.2.2) observed.defaults]
  have hmap : ∀ r : Reversible Ddl.Statement, (r.map (·.sql)).isEmpty = r.isEmpty := fun r => by
    simp [Reversible.map, Reversible.isEmpty]
  simp only [query?, hmap, ite_eq_left_iff, Bool.not_eq_true, reduceCtorEq, imp_false, Bool.not_eq_false]

/-- All differences that remain are skipped exactly if the declared schema is up to date. -/
theorem forall_isSkipped_iff (hd : declared.NamesUnique) (ho : observed.NamesUnique) :
    (∀ diff ∈ p.differences declared observed, diff.isSkipped = true) ↔ p.UpToDate declared observed := by
  constructor
  · intro h
    refine ⟨fun t ht hcounts => ?_, fun u hu hcounts hundeclared => ?_⟩
    · have hread := hd.tables.withKey?_key ht
      cases hu : withKey? Table.name t.name observed.tables with
      | none =>
        have hmem : .added t ∈ p.differences declared observed :=
          (mem_differences_iff hd ho).2 ⟨hcounts, by simp only [TableDiff.name, hread, hu, differenceAt?]⟩
        exact .inl ⟨withKey?_eq_none_iff.1 hu, List.isEmpty_iff.1 (h _ hmem)⟩
      | some u =>
        obtain ⟨hum, hname⟩ := ho.tables.withKey?_eq_some_iff.1 hu
        have hexact := TableChanges.exact_between (hd.inside t ht) (ho.inside u hum) hname.symm observed.defaults
        refine .inr ⟨u, hum, (Table.equivalentIn_own_iff ..).2 (hexact.isEmpty_iff.1 ?_)⟩
        cases hempty : (TableChanges.between t u observed.defaults).isEmpty with
        | true => rfl
        | false =>
          -- a difference between two tables is never skipped
          have hat : Schema.alteredTable? observed.defaults t u =
              some (.altered (TableChanges.between t u observed.defaults)) := by
            simp [Schema.alteredTable?, hempty]
          have hmem : .altered (TableChanges.between t u observed.defaults) ∈ p.differences declared observed := by
            refine (mem_differences_iff hd ho).2 ⟨hcounts, ?_⟩
            show differenceAt? _ _ _ (withKey? Table.name t.name _) (withKey? Table.name t.name _) = _
            rw [hread, hu, ← hat]
            rfl
          cases h _ hmem
    · have hmem : .removed u ∈ p.differences declared observed := by
        refine (mem_differences_iff hd ho).2 ⟨hcounts, ?_⟩
        simp only [TableDiff.name, withKey?_eq_none_iff.2 hundeclared, ho.tables.withKey?_key hu, differenceAt?]
      exact List.isEmpty_iff.1 (h _ hmem)
  · intro h diff hdiff
    obtain ⟨hcounts, -⟩ := (mem_differences_iff hd ho).1 hdiff
    have hjustified := justified_of_mem_differences hd ho hdiff
    cases diff with
    | added t =>
      obtain ⟨ht, hout⟩ := hjustified
      rcases h.ofDeclared t ht hcounts with ⟨-, hcolumns⟩ | ⟨u, hu, hsame⟩
      · exact List.isEmpty_iff.2 hcolumns
      · exact absurd hsame.name.symm (hout u hu)
    | removed u =>
      obtain ⟨hu, hout⟩ := hjustified
      exact List.isEmpty_iff.2 (h.ofObserved u hu hcounts hout)
    | altered c =>
      obtain ⟨ht, hu, hexact, hempty⟩ := hjustified
      rcases h.ofDeclared c.declared ht hcounts with ⟨hout, -⟩ | ⟨u, hum, hsame⟩
      · exact absurd hexact.name.symm (hout c.observed hu)
      · have hthe : u = c.observed := ho.tables.eq_of_key_eq hum hu (hsame.name.symm.trans hexact.name)
        subst hthe
        rw [hexact.isEmpty_iff.2 ((Table.equivalentIn_own_iff ..).1 hsame)] at hempty
        cases hempty

/-- Comparing logs on the way, and always ends with the statements. -/
theorem run_query (p : Planner) (declared observed : Schema) {σ : Type}
    (answer : (r : Session.Request) → σ → Session.Reply r × σ) (s : σ) :
    (Program.run (I := Session) answer (ExceptT.run (p.query declared observed)) s).1 =
      .ok (p.query? declared observed) := by
  have hlogs : ∀ (names : List String) (entry : String → Log.Entry) (s : σ),
      (Program.run (I := Session) answer
        (ExceptT.run (names.forM (fun name => Action.log (entry name)) >>= fun _ => pure (p.query? declared observed)))
          s).1 = .ok (p.query? declared observed) := by
    intro names entry
    induction names with
    | nil => exact fun _ => rfl
    | cons name names ih => exact fun s => ih (answer (.log (entry name)) s).2
  exact hlogs _ _ _

/-- There is nothing to migrate exactly if the declared schema is up to date. -/
theorem query_eq_none_iff (p : Planner) (hd : declared.NamesUnique) (ho : observed.NamesUnique) {σ : Type}
    (answer : (r : Session.Request) → σ → Session.Reply r × σ) (s : σ) :
    (Program.run (I := Session) answer (ExceptT.run (p.query declared observed)) s).1 = .ok none ↔
      p.UpToDate declared observed := by
  rw [run_query, Except.ok.injEq, query?_eq_none_iff hd ho, forall_isSkipped_iff hd ho]

end

/-- A declared schema that leaves open what the server takes by default. -/
def library : Schema :=
  { tables := [
      { name := "books"
        columns := [
          { name := "title", type := .length .varChar 200, comment := some "" },
          { name := "author", type := .integer .big 20, charset := some "ascii", binary := true }]
        indexes := [.primary ["title"], { name := "by_author", kind := .key, columns := ["author"] }]
        relations := [
          { name := "written_by", columns := ["author"], referencesTable := "authors", referencesColumns := ["id"],
            onDelete := some .noAction }] },
      { name := "drafts" },
      { name := "cache", columns := [{ name := "entry", type := .json }] }] }

/-- What the server shows for it, next to its table of records and an empty table. -/
def libraryServer : Schema :=
  { tables := [
      { name := "migrations", columns := [{ name := "name", type := .length .varChar 255 }] },
      { name := "shelves" },
      { name := "books"
        columns := [
          { name := "author", type := .integer .big 20 },
          { name := "title", type := .length .varChar 200, charset := some "utf8mb4",
            collate := some "utf8mb4_general_ci" }]
        indexes := [
          { name := "by_author", kind := .key, columns := ["author"] },
          { name := "pk", kind := .primary, columns := ["title"] }]
        relations := [
          { name := "written_by", columns := ["author"], referencesTable := "authors", referencesColumns := ["id"],
            onUpdate := some .restrict }]
        engine := some "InnoDB"
        charset := some "utf8mb4" }] }

/-- Replies of surroundings without files and records, in which nothing fails. -/
def idleReply : (r : Session.Request) → Session.Reply r
  | .files => .ok []
  | .source _ => .ok ""
  | .isTaken _ => false
  | .create name _ => .ok name
  | .hasTable => .ok true
  | .createTable => .ok ()
  | .records => .ok []
  | .upsert .. => .ok ()
  | .delete _ => .ok 0
  | .execute .. => .ok ()
  | .now => { seconds := 0 }
  | .log _ => ()

/-- What differs between the two is written differently, or does not count. -/
theorem query_eq_none_iff_library :
    library.NamesUnique ∧ libraryServer.NamesUnique ∧
      let p : Planner := { ignored := ["cache"] }
      ((Program.run (I := Session) (fun r s => (idleReply r, s)) (ExceptT.run (p.query library libraryServer)) ()).1 =
          .ok none ↔ p.UpToDate library libraryServer) ∧
        p.UpToDate library libraryServer := by
  have hd : library.NamesUnique := by decide
  have ho : libraryServer.NamesUnique := by decide
  have hiff := query_eq_none_iff { ignored := ["cache"] } hd ho (fun r s => (idleReply r, s)) ()
  refine ⟨hd, ho, hiff, hiff.1 ?_⟩
  rw [run_query]
  decide

end Planner

end SchemaMigration
