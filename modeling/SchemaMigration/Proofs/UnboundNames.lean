import SchemaMigration.Proofs.LiveRuns
import SchemaMigration.Proofs.Prepared

/-!
# Names without a value

A live run prepares a statement before it is sent, and preparing refuses it for the first name without a value
(`Statement.prepare_eq_missing`). So such a statement ends the run, and neither it nor a later one is sent. That is so
for every map with at least one value; a statement with an empty map counts as one that binds nothing and is sent as it
is written, names and all (`run_refuses_unbound_iff`).
-/

namespace SchemaMigration

/-! ## Statements -/

namespace Statement

open Placeholder

variable {values : List (String × BoundValue)} {name : List Char}

/-- There is no value for the name, with a colon before it or without. -/
def Unbound (values : List (String × BoundValue)) (name : List Char) : Prop :=
  ∀ v, (String.ofList name, v) ∉ values ∧ (":" ++ String.ofList name, v) ∉ values

/-- The first placeholder outside quotes whose name has no value. -/
def IsFirstUnbound (values : List (String × BoundValue)) (sql name : List Char) : Prop :=
  ∃ before after, pieces sql = before ++ .name name :: after ∧ Unbound values name ∧
    ∀ earlier, .name earlier ∈ before → ¬ Unbound values earlier

theorem lookup_eq_none_iff {key : String} : values.lookup key = none ↔ ∀ v, (key, v) ∉ values := by
  rw [List.lookup_eq_none_iff]
  constructor
  · exact fun h v hmem => absurd (h _ hmem) (by simp)
  · rintro h ⟨other, v⟩ hmem
    have hne : key ≠ other := by
      rintro rfl
      exact h v hmem
    simpa using hne

theorem lookup?_eq_none_iff : Binds.lookup? values (String.ofList name) = none ↔ Unbound values name := by
  simp only [Binds.lookup?, Unbound, forall_and, ← lookup_eq_none_iff]
  cases values.lookup (String.ofList name) <;> simp

theorem mem_names_iff {ps : List Piece} : name ∈ names ps ↔ .name name ∈ ps := by
  unfold names
  rw [List.mem_filterMap]
  constructor
  · rintro ⟨p, hp, hname⟩
    cases p <;> cases hname
    exact hp
  · exact fun h => ⟨_, h, rfl⟩

theorem find?_names_of_isFirstUnbound {sql : List Char} (h : IsFirstUnbound values sql name) :
    ((names (pieces sql)).find? fun n => (Binds.lookup? values (String.ofList n)).isNone) = some name := by
  obtain ⟨before, after, hpieces, hnone, hbefore⟩ := h
  have hnames : names (pieces sql) = names before ++ name :: names after := by
    rw [hpieces, names, List.filterMap_append]
    rfl
  refine List.find?_eq_some_iff_append.2 ⟨?_, names before, names after, hnames, fun earlier hmem => ?_⟩
  · rw [lookup?_eq_none_iff.2 hnone]
    rfl
  · have hbound := hbefore earlier (mem_names_iff.1 hmem)
    rw [← lookup?_eq_none_iff, ← Option.isNone_iff_eq_none] at hbound
    simpa only [Bool.not_eq_true'] using Bool.eq_false_iff.2 hbound

/-- Preparing refuses a statement for the first name without a value. -/
theorem prepare_eq_missing {s : Statement} (hbinds : s.binds = some (.named values))
    (h : IsFirstUnbound values s.sql.toList name) : s.prepare = .error (.missing s.sql (String.ofList name)) := by
  have hmissing := find?_names_of_isFirstUnbound h
  simp only [prepare, hbinds, substitute, fill_collect, hmissing]
  rfl

/-- A map with a value in it is looked at, and an empty one is not. -/
theorem sent_of_isFirstUnbound {s : Statement} (hbinds : s.binds = some (.named values))
    (h : IsFirstUnbound values s.sql.toList name) :
    s.sent = if values = [] then .ok (s.sql, none) else .error (.missing s.sql (String.ofList name)) := by
  have hhas : s.hasBinds = !values.isEmpty := by simp only [hasBinds, hbinds, Binds.isEmpty]
  rw [sent, hhas, prepare_eq_missing hbinds h]
  cases values <;> rfl

end Statement

/-! ## Runs -/

section

variable {δ : Type} {w : Workspace} {server : Server δ} {s s₁ : Deployment δ} {before : List Statement}

theorem Action.sendAll_append (before after : List Statement) :
    sendAll (before ++ after) = sendAll before >>= fun _ => sendAll after := by
  induction before with
  | nil => rfl
  | cons st before ih =>
    rw [List.cons_append, sendAll, ih, sendAll, bind_assoc]

namespace Deployment

/-- A run goes on behind statements that were all met with success. -/
theorem run_append {texts : List String} (hw : w.PrintsLog)
    (hbefore : s.run w server (Action.run false before) = (.ok texts, s₁)) (after : List Statement) :
    s.run w server (Action.run false (before ++ after)) =
      ((s₁.run w server (Action.run false after)).1.map (before.map (·.sql) ++ ·),
        (s₁.run w server (Action.run false after)).2) := by
  have hrun (s : Deployment δ) (statements : List Statement) : s.run w server (Action.run false statements) =
      ((s.run w server (Action.sendAll statements)).1.map fun _ => statements.map (·.sql),
        (s.run w server (Action.sendAll statements)).2) := by
    refine (run_bind (Action.sendAll statements) _).trans ?_
    rcases s.run w server (Action.sendAll statements) with ⟨e | _, s'⟩
    · rfl
    · exact run_bind_of_ok (run_log hw _)
  have hsent : s.run w server (Action.sendAll before) = (.ok (), s₁) := by
    rw [hrun] at hbefore
    rcases hsend : s.run w server (Action.sendAll before) with ⟨e | _, s'⟩
    · rw [hsend] at hbefore
      cases hbefore
    · rw [hsend] at hbefore
      exact congrArg (Prod.mk _) (congrArg Prod.snd hbefore)
  rw [hrun, hrun, Action.sendAll_append, run_bind_of_ok hsent]
  rcases s₁.run w server (Action.sendAll after) with ⟨e | _, s'⟩
  · rfl
  · simp [Except.map]

end Deployment

/-! ## Main statement -/

/-- A statement with a name that has no value, behind statements that were met with success, ends a live run with that
name, and nothing more is sent, exactly if its map is not empty; if it is empty, the statement is sent as written. -/
theorem run_refuses_unbound_iff (hw : w.PrintsLog) {st : Statement} {values : List (String × BoundValue)}
    {name : List Char} (hbinds : st.binds = some (.named values))
    (hunbound : Statement.IsFirstUnbound values st.sql.toList name) {texts : List String}
    (hbefore : s.run w server (Action.run false before) = (.ok texts, s₁)) (after : List Statement) :
    (s.run w server (Action.run false (before ++ st :: after)) =
        (.error (.missingBind st.sql (String.ofList name)), s₁) ↔ values ≠ []) ∧
      (values = [] → ∃ reply later, (s.run w server (Action.run false (before ++ st :: after))).2.sent =
        s₁.sent ++ .statement st.sql none reply :: later) := by
  rw [Deployment.run_append hw hbefore]
  obtain ⟨events, result, hsends, hperforms⟩ := Deployment.performs_run (s := s₁) server hw (st :: after)
  have hsent := Statement.sent_of_isFirstUnbound hbinds hunbound
  have hlater : (s₁.afterAll server events).sent = s₁.sent ++ events := hperforms.meets
  rw [hperforms.run]
  by_cases hvalues : values = []
  · rw [if_pos hvalues] at hsent
    have hevents : ∃ reply later, events = .statement st.sql none reply :: later := by
      cases hsends with
      | next hfirst =>
        cases hsent.symm.trans hfirst
        exact ⟨_, _, rfl⟩
      | unprepared hfirst => cases hsent.symm.trans hfirst
      | refused hfirst =>
        cases hsent.symm.trans hfirst
        exact ⟨_, _, rfl⟩
    obtain ⟨reply, later, rfl⟩ := hevents
    refine ⟨⟨fun hrun => ?_, fun hne => absurd hvalues hne⟩, fun _ => ⟨reply, later, hlater⟩⟩
    have hstate : s₁.afterAll server (.statement st.sql none reply :: later) = s₁ := (Prod.mk.inj hrun).2
    rw [hstate] at hlater
    simp at hlater
  · rw [if_neg hvalues] at hsent
    refine ⟨⟨fun _ => hvalues, fun _ => ?_⟩, fun hempty => absurd hempty hvalues⟩
    cases hsends with
    | next hfirst => cases hsent.symm.trans hfirst
    | unprepared hfirst =>
      cases hsent.symm.trans hfirst
      rfl
    | refused hfirst => cases hsent.symm.trans hfirst

end

namespace Deployment.Sample

open Workspace.Sample (workspace)

/-- A table for one column. -/
def create : Statement :=
  { sql := "CREATE TABLE t (v TEXT)" }

/-- A row with the value of a name, and a name in quotes that does not count. -/
def insert (values : List (String × BoundValue)) : Statement :=
  { sql := "INSERT INTO t (v) SELECT ':x' || :v", binds := some (.named values) }

theorem isFirstUnbound_insert {values : List (String × BoundValue)} (h : Statement.Unbound values ['v']) :
    Statement.IsFirstUnbound values (insert values).sql.toList ['v'] := by
  have hpieces : Placeholder.pieces "INSERT INTO t (v) SELECT ':x' || :v".toList =
      "INSERT INTO t (v) SELECT ':x' || ".toList.map Placeholder.Piece.char ++ [.name ['v']] := by decide +kernel
  refine ⟨_, [], hpieces, h, fun earlier hmem => ?_⟩
  obtain ⟨_, -, hname⟩ := List.mem_map.1 hmem
  cases hname

theorem run_refuses_unbound_iff_insert :
    let values : List (String × BoundValue) := [("w", .int 1)]
    ∃ s₁, (deployment none).run workspace (server []) (Action.run false [create]) = (.ok [create.sql], s₁) ∧
      (deployment none).run workspace (server []) (Action.run false [create, insert values, create]) =
        (.error (.missingBind (insert values).sql "v"), s₁) := by
  intro values
  have hunbound : Statement.Unbound values ['v'] := fun v => ⟨by simp [values], by simp [values]⟩
  have hcreate : (deployment none).run workspace (server []) (Action.run false [create]) = (.ok [create.sql], _) :=
    Prod.ext (Migration.eq_ok_of_toOption (by decide +kernel)) rfl
  refine ⟨_, hcreate, ?_⟩
  exact (run_refuses_unbound_iff (fun _ => .inl rfl : workspace.PrintsLog) rfl (isFirstUnbound_insert hunbound)
    hcreate [create]).1.2 (List.cons_ne_nil _ _)

/-- A statement with an empty map is sent with its name. -/
theorem not_run_refuses_unbound :
    ¬ ∀ (s s₁ : Deployment (List String)) (before after : List Statement) (st : Statement)
        (values : List (String × BoundValue)) (name : List Char) (texts : List String),
      st.binds = some (.named values) → Statement.IsFirstUnbound values st.sql.toList name →
        s.run workspace (server []) (Action.run false before) = (.ok texts, s₁) →
          s.run workspace (server []) (Action.run false (before ++ st :: after)) =
            (.error (.missingBind st.sql (String.ofList name)), s₁) := by
  intro h
  have hunbound : Statement.Unbound [] ['v'] := fun v => ⟨List.not_mem_nil, List.not_mem_nil⟩
  have hrun := h (deployment none) (deployment none) [] [] (insert []) [] ['v'] [] rfl (isFirstUnbound_insert hunbound)
    rfl
  have hsent : ((deployment none).run workspace (server []) (Action.run false [insert []])).1 =
      .ok [(insert []).sql] := Migration.eq_ok_of_toOption (by decide +kernel)
  rw [List.nil_append, Prod.ext_iff, hsent] at hrun
  cases hrun.1

end Deployment.Sample

end SchemaMigration
