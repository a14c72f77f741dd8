import ArchiveLabels.Time.Calendar
import Mathlib.Tactic.IntervalCases

/-!
# Days and their numbers

The day of a number has that number (`Date.number_ofNumber`), and it is one of the calendar
(`Date.isValid_ofNumber`). Both rest on where a day stands in its year from March, `Date.dayOfYear`,
and on which month of that year it falls into, `Date.monthOf`.
-/

namespace ArchiveLabels.Date

variable {y : Int} {k m : Nat}

/-! ## Months from March -/

/-- The month from March that a day falls into, by the days of its year before it. -/
def monthOf (k : Nat) : Nat := (5 * k + 2) / 153

/-- A day does not stand before its month. -/
theorem daysBeforeMonth_monthOf_le (k : Nat) : daysBeforeMonth (monthOf k) ≤ k := by
  unfold daysBeforeMonth monthOf
  omega

/-- A day stands before the next month. -/
theorem lt_daysBeforeMonth (k : Nat) : k < daysBeforeMonth (monthOf k + 1) := by
  unfold daysBeforeMonth monthOf
  omega

theorem monthOf_lt (h : k < 366) : monthOf k < 12 := by
  unfold monthOf
  omega

/-! ## Years from March -/

/-- How many days of its year have passed before the day of a number. -/
def dayOfYear (n : Int) : Nat := (n - daysBeforeYear (yearOf n)).toNat

/-- How many days a year has. The leap day is in February, the last month of a year from March. -/
def yearLength (y : Int) : Nat := if isLeapYear (y + 1) then 366 else 365

theorem yearLength_le (y : Int) : yearLength y ≤ 366 := by
  unfold yearLength
  split <;> omega

theorem daysBeforeYear_succ (y : Int) :
    daysBeforeYear (y + 1) = daysBeforeYear y + yearLength y := by
  simp only [daysBeforeYear, yearLength, isLeapYear, Bool.and_eq_true, Bool.or_eq_true,
    decide_eq_true_eq]
  split <;> omega

/-- A day is counted by its year and its day in the year. -/
theorem daysBeforeYear_add_dayOfYear (n : Int) :
    daysBeforeYear (yearOf n) + dayOfYear n = n := by
  have := yearOf_bounds n
  unfold dayOfYear
  omega

/-- The day of the year lies in the year. -/
theorem dayOfYear_lt (n : Int) : dayOfYear n < yearLength (yearOf n) := by
  have hbounds := yearOf_bounds n
  have hday := daysBeforeYear_add_dayOfYear n
  rw [daysBeforeYear_succ] at hbounds
  omega

/-! ## The day of a number -/

theorem ofNumber_eq (n : Int) :
    ofNumber n =
      let y := yearOf (n + epochDistance)
      let k := dayOfYear (n + epochDistance)
      { year := if monthOf k < 10 then y else y + 1
        month := if monthOf k < 10 then monthOf k + 3 else monthOf k - 9
        day := k - daysBeforeMonth (monthOf k) + 1 } :=
  rfl

/-- The day of a number has that number. -/
theorem number_ofNumber (n : Int) : (ofNumber n).number = n := by
  have hyear := daysBeforeYear_add_dayOfYear (n + epochDistance)
  have hmonth := daysBeforeMonth_monthOf_le (dayOfYear (n + epochDistance))
  have hlt := monthOf_lt ((dayOfYear_lt (n + epochDistance)).trans_le (yearLength_le _))
  rw [ofNumber_eq]
  generalize dayOfYear (n + epochDistance) = k at *
  generalize yearOf (n + epochDistance) = y at *
  simp only [number]
  split
  · rename_i h
    rw [if_neg (by omega), Nat.add_assoc, Nat.add_mod_right, Nat.mod_eq_of_lt hlt]
    omega
  · rename_i h
    rw [if_pos (by omega), Nat.sub_add_cancel (by omega), Nat.mod_eq_of_lt hlt,
      Int.add_sub_cancel]
    omega

/-- A day stands within its month. -/
theorem day_le_monthLength (hk : k < yearLength y) :
    k - daysBeforeMonth (monthOf k) + 1 ≤
      monthLength (if monthOf k < 10 then y else y + 1)
        (if monthOf k < 10 then monthOf k + 3 else monthOf k - 9) := by
  have hnext := lt_daysBeforeMonth k
  have hlt := monthOf_lt (hk.trans_le (yearLength_le y))
  generalize monthOf k = m at *
  simp only [daysBeforeMonth] at *
  rcases Nat.lt_or_ge m 11 with hm | hm
  · interval_cases m
    all_goals simp only [monthLength, Nat.reduceLT, if_true, if_false, Nat.reduceAdd, Nat.reduceSub]
    all_goals omega
  · obtain rfl : m = 11 := by omega
    simp only [monthLength, yearLength, Nat.reduceLT, if_false, Nat.reduceSub] at hk ⊢
    cases hleap : isLeapYear (y + 1) <;>
      simp only [hleap, if_true, if_false, Bool.false_eq_true] at hk ⊢ <;> omega

/-- The day of a number is one of the calendar. -/
theorem isValid_ofNumber (n : Int) : (ofNumber n).isValid = true := by
  have hk := dayOfYear_lt (n + epochDistance)
  have hlt := monthOf_lt (hk.trans_le (yearLength_le _))
  have hday := day_le_monthLength hk
  rw [ofNumber_eq]
  simp only [isValid, Bool.and_eq_true, decide_eq_true_eq]
  refine ⟨⟨⟨?_, ?_⟩, by omega⟩, hday⟩
  · split <;> omega
  · split <;> omega

end ArchiveLabels.Date
