import SchemaMigration.Calendar.Timestamp
import Mathlib.Tactic.SplitIfs

/-!
# Days and seconds in their order

Every day lies in the year that is found for it (`yearOf_spec`), so a later day has a later year, or the same year and a
later day of the year; a later second is on a later day, or a later one of the same day (`Instant.earlier_of_lt`).
-/

namespace SchemaMigration

namespace Calendar

theorem daysBeforeYear_mono {y z : Int} (h : y ≤ z) : daysBeforeYear y ≤ daysBeforeYear z := by
  dsimp only [daysBeforeYear]
  omega

/-- The next year starts after all days of this one. -/
theorem daysBeforeYear_succ (year : Int) :
    daysBeforeYear (year + 1) = daysBeforeYear year + (yearLength year : Int) := by
  have hleap : isLeapYear year = true ↔ year % 4 = 0 ∧ (year % 100 ≠ 0 ∨ year % 400 = 0) := by simp [isLeapYear]
  -- a multiple more, or as many as before
  have hfours : year / 4 = (year - 1) / 4 + if year % 4 = 0 then 1 else 0 := by split_ifs <;> omega
  have hcenturies : year / 100 = (year - 1) / 100 + if year % 100 = 0 then 1 else 0 := by split_ifs <;> omega
  have hcycles : year / 400 = (year - 1) / 400 + if year % 400 = 0 then 1 else 0 := by split_ifs <;> omega
  simp only [daysBeforeYear, yearLength, Int.add_sub_cancel, hleap, hfours, hcenturies, hcycles]
  split_ifs <;> omega

theorem yearLength_le (year : Int) : yearLength year ≤ 366 := by
  unfold yearLength
  split_ifs <;> omega

/-- A day is in its year: not before the first day of it, and before the first day of the next one. -/
theorem yearOf_spec (days : Int) :
    daysBeforeYear (yearOf days) ≤ days ∧ days < daysBeforeYear (yearOf days + 1) := by
  have hlow : daysBeforeYear (days * 400 / 146097 + 1970 - 1) ≤ days := by
    dsimp only [daysBeforeYear]
    omega
  have hhigh : days < daysBeforeYear (days * 400 / 146097 + 1970 + 1 + 1) := by
    dsimp only [daysBeforeYear]
    omega
  unfold yearOf
  dsimp only
  split_ifs with hbefore hafter
  · rw [Int.sub_add_cancel]
    exact ⟨hlow, hbefore⟩
  · exact ⟨hafter, hhigh⟩
  · exact ⟨Int.not_lt.1 hbefore, Int.not_le.1 hafter⟩

theorem yearOf_mono {a b : Int} (h : a ≤ b) : yearOf a ≤ yearOf b := by
  apply Int.not_lt.1
  intro hlt
  have hyears : daysBeforeYear (yearOf b + 1) ≤ daysBeforeYear (yearOf a) := daysBeforeYear_mono (by omega)
  have ha := (yearOf_spec a).1
  have hb := (yearOf_spec b).2
  omega

/-- The first day of the year and the day of the year make the day. -/
theorem daysBeforeYear_add_dayOfYear (days : Int) : daysBeforeYear (yearOf days) + (dayOfYear days : Int) = days := by
  have h := (yearOf_spec days).1
  unfold dayOfYear
  omega

theorem dayOfYear_lt (days : Int) : dayOfYear days < 366 := by
  have h := daysBeforeYear_add_dayOfYear days
  have hnext := (yearOf_spec days).2
  have hlength := daysBeforeYear_succ (yearOf days)
  have hdays := yearLength_le (yearOf days)
  omega

/-- A later day is in a later year, or later in the same year. -/
theorem year_or_day_lt {a b : Int} (h : a < b) :
    yearOf a < yearOf b ∨ yearOf a = yearOf b ∧ dayOfYear a < dayOfYear b := by
  rcases Int.lt_or_eq_of_le (yearOf_mono (Int.le_of_lt h)) with hyear | hyear
  · exact .inl hyear
  · refine .inr ⟨hyear, ?_⟩
    have ha := daysBeforeYear_add_dayOfYear a
    have hb := daysBeforeYear_add_dayOfYear b
    rw [hyear] at ha
    omega

end Calendar

namespace Instant

open Calendar

theorem secondOfDay_lt (t : Instant) : t.secondOfDay < 86400 := by
  unfold secondOfDay secondsPerDay
  omega

/-- A later second is in a later year, or on a later day of the same year, or later on the same day. -/
theorem earlier_of_lt {t u : Instant} (h : t.seconds < u.seconds) :
    yearOf t.day < yearOf u.day ∨ yearOf t.day = yearOf u.day ∧
      (dayOfYear t.day < dayOfYear u.day ∨ dayOfYear t.day = dayOfYear u.day ∧ t.secondOfDay < u.secondOfDay) := by
  have hday : t.day < u.day ∨ t.day = u.day ∧ t.secondOfDay < u.secondOfDay := by
    unfold day secondOfDay secondsPerDay
    omega
  rcases hday with hday | ⟨hday, hsecond⟩
  · rcases year_or_day_lt hday with hyear | ⟨hyear, hdays⟩
    · exact .inl hyear
    · exact .inr ⟨hyear, .inl hdays⟩
  · rw [hday]
    exact .inr ⟨rfl, .inr ⟨rfl, hsecond⟩⟩

end Instant

end SchemaMigration
