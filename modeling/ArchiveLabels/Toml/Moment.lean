import ArchiveLabels.Json.Basic
import ArchiveLabels.Text.Digits
import ArchiveLabels.Time.Calendar
import ArchiveLabels.Toml.Layout

/-!
# Dates and times of TOML texts

A moment is a date, a time of day, or a date with a time and perhaps a zone. `momentOf?` gives the
one text of a moment, however it is written : `T` stands between date and time, `Z` for universal
time, no distance from universal time is negative zero, and a fraction has at most nine digits, the
last of which is no zero.
-/

namespace ArchiveLabels.Toml

open Text

/-- A number of two digits that is at least `least` and at most `most`. -/
def pair? (least most : Nat) : List Char → Option (Nat × List Char)
  | a :: b :: cs =>
    let n := numberOf 10 [a, b]
    if a.isDigit && b.isDigit && least ≤ n && n ≤ most then some (n, cs) else none
  | _ => none

/-- Reads a date. -/
def readDate? (cs : List Char) : Option (List Char × List Char) := do
  let year := cs.take 4
  if year.length = 4 && year.all Char.isDigit then
    let rest ← after? '-' (cs.drop 4)
    let (month, rest) ← pair? 1 12 rest
    let rest ← after? '-' rest
    let (day, rest) ← pair? 1 31 rest
    if Date.isValid ⟨numberOf 10 year, month, day⟩ then some (cs.take 10, rest) else none
  else none

/-- The digits of a fraction that count. -/
def significant (ds : List Char) : List Char :=
  ((ds.take 9).reverse.dropWhile (· == '0')).reverse

/-- Reads a time of day. -/
def readTime? (cs : List Char) : Option (List Char × List Char) := do
  let (_, rest) ← pair? 0 23 cs
  let rest ← after? ':' rest
  let (_, rest) ← pair? 0 59 rest
  let rest ← after? ':' rest
  let (_, rest) ← pair? 0 60 rest
  match rest with
  | '.' :: rest =>
    let ds := rest.takeWhile Char.isDigit
    let fraction := significant ds
    if ds.isEmpty then none
    else
      some (cs.take 8 ++ (if fraction.isEmpty then [] else '.' :: fraction),
        rest.dropWhile Char.isDigit)
  | rest => some (cs.take 8, rest)

/-- The zone that is written behind a time, if nothing else is : none, universal time, or a distance
from it. -/
def zoneOf? : List Char → Option (List Char)
  | [] => some []
  | ['Z'] => some ['Z']
  | ['z'] => some ['Z']
  | c :: cs =>
    if c = '+' || c = '-' then do
      let (hours, rest) ← pair? 0 23 cs
      let (minutes, rest) ← pair? 0 59 (← after? ':' rest)
      if rest.isEmpty then some ((if hours = 0 && minutes = 0 then '+' else c) :: cs) else none
    else none

/-- The time of day that is written, perhaps with a zone. -/
def zonedTimeOf? (cs : List Char) : Option (List Char) := do
  let (time, rest) ← readTime? cs
  return time ++ (← zoneOf? rest)

/-- A date with a time. -/
def moment (date time : List Char) : List Char := date ++ 'T' :: time

/-- The moment that is written. -/
def momentOf? (cs : List Char) : Option (List Char) :=
  match readDate? cs with
  | some (date, []) => some date
  | some (date, t :: cs) =>
    if t = 'T' || t = 't' then (zonedTimeOf? cs).map (moment date) else none
  | none =>
    match readTime? cs with
    | some (time, []) => some time
    | _ => none

/-- The field that holds the text of a moment. -/
def momentField : String := "$__toml_private_datetime"

/-- A moment as a JSON value, which is an object of one field. -/
def momentJson (text : List Char) : Json :=
  .obj [(momentField, .str (String.ofList text))]

end ArchiveLabels.Toml
