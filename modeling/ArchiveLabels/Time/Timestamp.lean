import ArchiveLabels.Time.Calendar

/-!
# Points in time

A point in time is kept to the nanosecond. `Timestamp.written` writes it as
`2000-01-31T12:00:00.500` with the zone behind it : years of four digits stand alone, others take a
sign, and the fraction has 0, 3, 6 or 9 digits.
-/

namespace ArchiveLabels

/-- A point in time. -/
structure Timestamp where
  /-- The seconds since the start of 1970 that have passed, not counting leap seconds. -/
  seconds : Int
  /-- The nanoseconds since; a leap second lies beyond the first thousand million of them. -/
  nanos : Nat
deriving DecidableEq, Repr, Inhabited

namespace Timestamp

/-- Nanoseconds of a second. -/
def nanosPerSecond : Nat := 1000000000

/-- Seconds of a day. -/
def secondsPerDay : Nat := 86400

/-- The start of 1970. -/
def epoch : Timestamp := ⟨0, 0⟩

/-- The point in time one second later. -/
def next (t : Timestamp) : Timestamp := { t with seconds := t.seconds + 1 }

/-- A number with at least `width` digits. -/
def digits (width n : Nat) : String :=
  let ds := toString n
  String.ofList (List.replicate (width - ds.length) '0') ++ ds

/-- A year with at least four digits, and with its sign if it is not one of 0 to 9999. -/
def yearText (y : Int) : String :=
  if 0 ≤ y && y ≤ 9999 then digits 4 y.toNat
  else if y < 0 then "-" ++ digits 4 y.natAbs
  else "+" ++ digits 4 y.natAbs

/-- The fraction of a second, with its point. -/
def fractionText (nanos : Nat) : String :=
  if nanos = 0 then ""
  else if nanos % 1000000 = 0 then "." ++ digits 3 (nanos / 1000000)
  else if nanos % 1000 = 0 then "." ++ digits 6 (nanos / 1000)
  else "." ++ digits 9 nanos

/-- The day of a point in time. -/
def date (t : Timestamp) : Date :=
  Date.ofNumber (t.seconds / secondsPerDay)

/-- The whole seconds of its day that have passed at a point in time. -/
def secondOfDay (t : Timestamp) : Nat :=
  (t.seconds % secondsPerDay).toNat

/-- A point in time as it is written, before its zone. -/
def writtenBare (t : Timestamp) : String :=
  let d := t.date
  let s := t.secondOfDay
  let leap := if nanosPerSecond ≤ t.nanos then 1 else 0
  yearText d.year ++ "-" ++ digits 2 d.month ++ "-" ++ digits 2 d.day ++ "T" ++
    digits 2 (s / 3600) ++ ":" ++ digits 2 (s / 60 % 60) ++ ":" ++ digits 2 (s % 60 + leap) ++
    fractionText (t.nanos % nanosPerSecond)

/-- A point in time as it is written in files. -/
def written (t : Timestamp) : String := t.writtenBare ++ "Z"

/-- A point in time as it is shown, with its distance from Greenwich time. -/
def shown (t : Timestamp) : String := t.writtenBare ++ "+00:00"

end Timestamp

end ArchiveLabels
