import SchemaMigration.Error
import SchemaMigration.Migration.Basic

/-!
# Selecting migrations

Which migrations a run goes through, in its order. A run forward takes the new ones; a run backward takes the deleted
ones and then the applied ones, the last first. A target stands for itself alone; a count cuts the list, where zero
counts as none.
-/

namespace SchemaMigration.Migration

/-- The first `count` of a list, or all of it. -/
def upTo {α : Type} (count : Option Nat) (xs : List α) : List α :=
  match count with
  | none | some 0 => xs
  | some n => xs.take n

section

variable {α : Type} {count : Option Nat}

/-- No count, and a count of zero, leave the list whole. -/
theorem upTo_eq_self (h : count.getD 0 = 0) (xs : List α) : upTo count xs = xs := by
  cases count with
  | none => rfl
  | some n =>
    obtain rfl : n = 0 := h
    rfl

/-- Any other count leaves the first ones, as many as it says. -/
theorem upTo_some {n : Nat} (hn : 0 < n) (xs : List α) : upTo (some n) xs = xs.take n := by
  obtain ⟨k, rfl⟩ := Nat.exists_eq_succ_of_ne_zero (Nat.ne_of_gt hn)
  rfl

theorem upTo_isPrefix (count : Option Nat) (xs : List α) : upTo count xs <+: xs := by
  unfold upTo
  split
  · exact List.prefix_rfl
  · exact List.prefix_rfl
  · exact List.take_prefix ..

theorem length_upTo (count : Option Nat) (xs : List α) :
    (upTo count xs).length = if count.getD 0 = 0 then xs.length else min (count.getD 0) xs.length := by
  split
  · next hzero => rw [upTo_eq_self hzero]
  · next hzero =>
    cases count with
    | none => exact absurd rfl hzero
    | some n =>
      have hn : n ≠ 0 := hzero
      rw [upTo_some (Nat.pos_of_ne_zero hn), List.length_take, Option.getD_some]

/-- What is left is the beginning of the list that has as many members as the count allows. -/
theorem upTo_eq_iff {xs ys : List α} :
    upTo count xs = ys ↔
      ys <+: xs ∧ ys.length = if count.getD 0 = 0 then xs.length else min (count.getD 0) xs.length := by
  rw [← length_upTo]
  constructor
  · rintro rfl
    exact ⟨upTo_isPrefix count xs, rfl⟩
  · rintro ⟨hstarts, hlength⟩
    have hle := List.prefix_of_prefix_length_le (upTo_isPrefix count xs) hstarts (Nat.le_of_eq hlength.symm)
    exact hle.eq_of_length hlength.symm

end

/-- The migrations that a run forward applies. -/
def toApply (ms : List Migration) (target : Option String) (count : Option Nat) :
    Except MigrationError (List Migration) :=
  match target with
  | none => .ok (upTo count (ms.filter fun m => m.state == .new))
  | some name =>
    match ms.find? fun m => m.name == name && m.state != .deleted with
    | some m => .ok [m]
    | none => .error (.migrationNotFound name)

/-- The migrations that a run backward reverts. -/
def toRevert (ms : List Migration) (target : Option String) (count : Option Nat) :
    Except MigrationError (List Migration) :=
  match target with
  | none => .ok (upTo count (ms.reverse.filter fun m => m.state != .new))
  | some name =>
    match ms.find? (·.name == name) with
    | none => .error (.migrationNotFound name)
    | some (.new file) => .error (.notApplied file.name)
    | some m => .ok [m]

end SchemaMigration.Migration
