import ArchiveLabels.Text.Blank
import ArchiveLabels.Text.Digits
import ArchiveLabels.Text.Fold
import ArchiveLabels.Time.Timestamp

/-!
# Reading points in time

`Timestamp.parse?` reads a date, a `T` and a time of day with its zone. Blanks may stand before each
number and each sign between them, and numbers may have fewer digits than they are written with.
-/

namespace ArchiveLabels.Timestamp

open Text

/-- Reads a number of at least one digit and at most `most`. -/
def number? (most : Nat) (cs : List Char) : Option (Nat × List Char) :=
  let ds := (cs.take most).takeWhile Char.isDigit
  if ds.isEmpty then none else some (numberOf 10 ds, cs.drop ds.length)

/-- Reads a number of any number of digits. -/
def longNumber? (cs : List Char) : Option (Nat × List Char) :=
  number? cs.length cs

/-- Reads a number of one or two digits behind blanks. -/
def shortNumber? (cs : List Char) : Option (Nat × List Char) :=
  number? 2 (trimStart cs)

/-- Reads the sign `c` behind blanks. -/
def sign? (c : Char) (cs : List Char) : Option (Unit × List Char) :=
  match trimStart cs with
  | d :: rest => if d = c then some ((), rest) else none
  | [] => none

/-- Reads a year : four digits at most, or a sign and any number of them. -/
def year? (cs : List Char) : Option (Int × List Char) :=
  match trimStart cs with
  | '-' :: rest => (longNumber? rest).map fun (n, rest) => (-(n : Int), rest)
  | '+' :: rest => (longNumber? rest).map fun (n, rest) => ((n : Int), rest)
  | rest => (number? 4 rest).map fun (n, rest) => ((n : Int), rest)

/-- Reads a date. -/
def date? (cs : List Char) : Option (Date × List Char) := do
  let (y, cs) ← year? cs
  let ((), cs) ← sign? '-' cs
  let (m, cs) ← shortNumber? cs
  let ((), cs) ← sign? '-' cs
  let (d, cs) ← shortNumber? cs
  if Date.isValid ⟨y, m, d⟩ then some (⟨y, m, d⟩, cs) else none

/-- Reads a fraction of a second, if there is one; digits behind the ninth do not count. -/
def fraction? : List Char → Option (Nat × List Char)
  | '.' :: cs => do
    let ds := (cs.take 9).takeWhile Char.isDigit
    if ds.isEmpty then none
    else
      some (numberOf 10 ds * Nat.pow 10 (9 - ds.length), (cs.drop ds.length).dropWhile Char.isDigit)
  | cs => some (0, cs)

/-- Reads a time of day : its seconds and nanoseconds. Second 60 counts as part of second 59. -/
def time? (cs : List Char) : Option ((Nat × Nat) × List Char) := do
  let (h, cs) ← shortNumber? cs
  let ((), cs) ← sign? ':' cs
  let (m, cs) ← shortNumber? cs
  let ((), cs) ← sign? ':' cs
  let (s, cs) ← shortNumber? cs
  let (f, cs) ← fraction? cs
  if h < 24 && m < 60 && s ≤ 60 then
    let whole := h * 3600 + m * 60
    if s = 60 then some ((whole + 59, nanosPerSecond + f), cs) else some ((whole + s, f), cs)
  else none

/-- The minus sign of typography. -/
def longMinus : Char := Char.ofNat 0x2212

/-- A sign between the hours and the minutes of a zone. -/
def isZoneSeparator (c : Char) : Bool := c == ':' || isBlank c

/-- Reads the hours and minutes of a zone : its distance in seconds. -/
def distance? : List Char → Option (Nat × List Char)
  | a :: b :: cs =>
    match cs.dropWhile isZoneSeparator with
    | c :: d :: cs =>
      if [a, b, c, d].all Char.isDigit then
        let h := numberOf 10 [a, b]
        let m := numberOf 10 [c, d]
        if h < 24 && m < 60 then some (h * 3600 + m * 60, cs) else none
      else none
    | _ => none
  | _ => none

/-- Reads a zone : how many seconds its clocks are ahead of Greenwich time. -/
def zone? (cs : List Char) : Option (Int × List Char) :=
  match cs with
  | 'Z' :: cs | 'z' :: cs => some (0, cs)
  | '+' :: cs => (distance? cs).map fun (n, cs) => ((n : Int), cs)
  | c :: rest =>
    if sameLetters (String.ofList (cs.take 3)) "UTC" then some (0, cs.drop 3)
    else if c = '-' || c = longMinus then (distance? rest).map fun (n, cs) => (-(n : Int), cs)
    else none
  | [] => none

/-- The first year that dates may have. -/
def firstYear : Int := -262143

/-- The last year that dates may have. -/
def lastYear : Int := 262142

/-- The point in time lies in a year that dates may have. -/
def inRange (t : Timestamp) : Bool :=
  firstYear ≤ t.date.year && t.date.year ≤ lastYear

/-- Reads the letter or the space between a date and a time. -/
def separator? : List Char → Option (Unit × List Char)
  | 'T' :: cs | 't' :: cs | ' ' :: cs => some ((), cs)
  | _ => none

/-- Reads a point in time. -/
def parse? (s : String) : Option Timestamp := do
  let (d, cs) ← date? s.toList
  let ((), cs) ← separator? cs
  let ((second, nanos), cs) ← time? cs
  let (ahead, cs) ← zone? (trimStart cs)
  let t : Timestamp := ⟨d.number * secondsPerDay + second - ahead, nanos⟩
  if (trimStart cs).isEmpty && firstYear ≤ d.year && d.year ≤ lastYear && t.inRange then some t
  else none

end ArchiveLabels.Timestamp
