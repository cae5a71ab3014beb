/-
# SploneBox.Lib.Calendar — the proleptic Gregorian calendar.

A year is a leap year if it is divisible by 4, but not by 100 unless by 400. The number of a day is the count
of the days between an epoch and it: the lengths of the years in between, of the months before it in its year,
and the days before it in its month. `daysBeforeYear_eq` gives the closed form of the first sum, with the leap
days counted by divisions, and `daysBeforeMonth_eq` that of the second, with the leap day added after
February.
-/
import Mathlib.Algebra.BigOperators.Group.Finset.Basic
import Mathlib.Tactic.Common
import Mathlib.Tactic.IntervalCases

namespace SploneBox.Lib.Calendar

/-! ## §1 Years and months -/

/-- A leap year. -/
def IsLeap (y : Nat) : Prop := y % 4 = 0 ∧ (y % 100 ≠ 0 ∨ y % 400 = 0)

instance (y : Nat) : Decidable (IsLeap y) := inferInstanceAs (Decidable (_ ∧ _))

def daysInYear (y : Nat) : Nat := if IsLeap y then 366 else 365

/-- The days of the months of a common year. -/
def commonMonths : List Nat := [31, 28, 31, 30, 31, 30, 31, 31, 30, 31, 30, 31]

/-- The days of a month; months count from 1. -/
def daysInMonth (y m : Nat) : Nat := if m = 2 ∧ IsLeap y then 29 else commonMonths.getD (m - 1) 0

/-- A date that exists. -/
structure Valid (y m d : Nat) : Prop where
  month_pos : 1 ≤ m
  month_le : m ≤ 12
  day_pos : 1 ≤ d
  day_le : d ≤ daysInMonth y m

/-! ## §2 Counting days -/

/-- The days of the years from `epoch` up to `y`. -/
def daysBeforeYear (epoch y : Nat) : Nat := ∑ i ∈ Finset.range (y - epoch), daysInYear (epoch + i)

/-- The days of the months before `m`. -/
def daysBeforeMonth (y m : Nat) : Nat := ∑ i ∈ Finset.range (m - 1), daysInMonth y (i + 1)

/-- The days from the first of January of `epoch` up to a date. -/
def dayNumber (epoch y m d : Nat) : Nat := daysBeforeYear epoch y + daysBeforeMonth y m + (d - 1)

/-- The leap days up to the end of a year. -/
def leapDays (y : Nat) : Nat := y / 4 - y / 100 + y / 400

theorem leapDays_succ (y : Nat) : leapDays (y + 1) = leapDays y + if IsLeap (y + 1) then 1 else 0 := by
  have hle : y / 100 ≤ y / 4 := Nat.div_le_div_left (by decide) (by decide)
  unfold leapDays
  rw [Nat.succ_div, Nat.succ_div, Nat.succ_div]
  by_cases hfour : 4 ∣ y + 1
  · by_cases hcentury : 100 ∣ y + 1
    · by_cases hcycle : 400 ∣ y + 1
      · have hleap : IsLeap (y + 1) := ⟨Nat.mod_eq_zero_of_dvd hfour, Or.inr (Nat.mod_eq_zero_of_dvd hcycle)⟩
        rw [if_pos hfour, if_pos hcentury, if_pos hcycle, if_pos hleap]
        omega
      · have hleap : ¬ IsLeap (y + 1) := by
          rintro ⟨-, hnot | hnot⟩
          · exact hnot (Nat.mod_eq_zero_of_dvd hcentury)
          · exact hcycle (Nat.dvd_of_mod_eq_zero hnot)
        rw [if_pos hfour, if_pos hcentury, if_neg hcycle, if_neg hleap]
        omega
    · have hcycle : ¬ 400 ∣ y + 1 := fun h => hcentury (dvd_trans (by decide) h)
      have hleap : IsLeap (y + 1) :=
        ⟨Nat.mod_eq_zero_of_dvd hfour, Or.inl fun h => hcentury (Nat.dvd_of_mod_eq_zero h)⟩
      rw [if_pos hfour, if_neg hcentury, if_neg hcycle, if_pos hleap]
      omega
  · -- 100 and 400 are multiples of 4
    have hcentury : ¬ 100 ∣ y + 1 := fun h => hfour (dvd_trans (by decide) h)
    have hcycle : ¬ 400 ∣ y + 1 := fun h => hfour (dvd_trans (by decide) h)
    have hleap : ¬ IsLeap (y + 1) := fun h => hfour (Nat.dvd_of_mod_eq_zero h.1)
    rw [if_neg hfour, if_neg hcentury, if_neg hcycle, if_neg hleap]
    rfl

/-- The lengths of the years as common years and leap days. -/
theorem daysBeforeYear_eq (epoch n : Nat) :
    daysBeforeYear (epoch + 1) (epoch + 1 + n) + leapDays epoch = 365 * n + leapDays (epoch + n) := by
  unfold daysBeforeYear
  rw [Nat.add_sub_cancel_left]
  induction n with
  | zero => simp
  | succ n ih =>
      have hlength : daysInYear (epoch + 1 + n) + leapDays (epoch + n) = 365 + leapDays (epoch + (n + 1)) := by
        have hsucc := leapDays_succ (epoch + n)
        rw [show epoch + (n + 1) = epoch + n + 1 by omega, hsucc, show epoch + 1 + n = epoch + n + 1 by omega]
        unfold daysInYear
        split <;> omega
      rw [Finset.sum_range_succ]
      omega

/-- The days of the months before `m` of a common year. -/
def commonDaysBefore (m : Nat) : Nat := (commonMonths.take (m - 1)).sum

/-- The days before a month are those of a common year, and the leap day if February is over. -/
theorem daysBeforeMonth_eq (y : Nat) {m : Nat} (h : m ≤ 12) :
    daysBeforeMonth y m = commonDaysBefore m + if 2 < m ∧ IsLeap y then 1 else 0 := by
  unfold daysBeforeMonth commonDaysBefore daysInMonth
  by_cases hleap : IsLeap y
  · simp only [hleap, and_true]
    interval_cases m <;> rfl
  · simp only [hleap, and_false, if_false, Nat.add_zero]
    interval_cases m <;> rfl

end SploneBox.Lib.Calendar
