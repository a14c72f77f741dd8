/-!
# Days of the calendar

The Gregorian calendar, continued to all years. Days are numbered from 1 January 1970. `Date.number`
gives the number of a day and `Date.ofNumber` the day of a number; counting starts in March, so that
the day that a leap year adds is the last one of its year.
-/

namespace ArchiveLabels

/-- A day. -/
structure Date where
  /-- The year; year 0 is the one before year 1. -/
  year : Int
  /-- The month, from 1. -/
  month : Nat
  /-- The day of the month, from 1. -/
  day : Nat
deriving DecidableEq, Repr

namespace Date

/-- How many days the years from 0 to before `y` have, each of which starts in March. -/
def daysBeforeYear (y : Int) : Int := 365 * y + y / 4 - y / 100 + y / 400

/-- How many days the first `m` months from March have. -/
def daysBeforeMonth (m : Nat) : Nat := (153 * m + 2) / 5

/-- The number of 1 March of year 0, counted down from 1 January 1970. -/
def epochDistance : Int := 719468

/-- The year from March that a day of the given number from 1 March of year 0 falls into. -/
def yearOf (n : Int) : Int :=
  let y := n * 400 / 146097
  if n < daysBeforeYear y then y - 1
  else if daysBeforeYear (y + 1) ≤ n then y + 1
  else y

/-- The number of a day. -/
def number (d : Date) : Int :=
  let y := if d.month ≤ 2 then d.year - 1 else d.year
  daysBeforeYear y + daysBeforeMonth ((d.month + 9) % 12) + d.day - 1 - epochDistance

/-- The day of a number. -/
def ofNumber (n : Int) : Date :=
  let n := n + epochDistance
  let y := yearOf n
  let k := (n - daysBeforeYear y).toNat
  let m := (5 * k + 2) / 153
  { year := if m < 10 then y else y + 1
    month := if m < 10 then m + 3 else m - 9
    day := k - daysBeforeMonth m + 1 }

/-- A year of 366 days. -/
def isLeapYear (y : Int) : Bool :=
  y % 4 = 0 && (y % 100 ≠ 0 || y % 400 = 0)

/-- How many days a month has. -/
def monthLength (y : Int) (m : Nat) : Nat :=
  match m with
  | 2 => if isLeapYear y then 29 else 28
  | 4 | 6 | 9 | 11 => 30
  | _ => 31

/-- The day is one of its month, and the month one of the twelve. -/
def isValid (d : Date) : Bool :=
  1 ≤ d.month && d.month ≤ 12 && 1 ≤ d.day && d.day ≤ monthLength d.year d.month

/-- `yearOf` finds the year. -/
theorem yearOf_bounds (n : Int) :
    daysBeforeYear (yearOf n) ≤ n ∧ n < daysBeforeYear (yearOf n + 1) := by
  unfold yearOf
  simp only
  split
  · rename_i h
    unfold daysBeforeYear at *
    omega
  · split
    · rename_i h
      unfold daysBeforeYear at *
      omega
    · rename_i h h'
      exact ⟨by omega, by omega⟩

end Date

end ArchiveLabels
