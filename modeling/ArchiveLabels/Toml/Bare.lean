import ArchiveLabels.Json.Basic
import ArchiveLabels.Text.Digits
import ArchiveLabels.Toml.Moment

/-!
# Values of TOML texts without quotes

Truth values, numbers and moments. A value is the longest run of characters that may stand in one,
and all of the run has to belong to it; only between a date and a time may stand a blank. No setting
is a fraction, so that fractions are kept as they are written.
-/

namespace ArchiveLabels.Toml

open Text

/-! ## Numbers -/

/-- Digits that may have an underscore between two of them, without the underscores. -/
def digits? (isDigit : Char → Bool) : List Char → Option (List Char)
  | [] => none
  | [c] => if isDigit c then some [c] else none
  | c :: '_' :: cs => if isDigit c then (digits? isDigit cs).map (c :: ·) else none
  | c :: cs => if isDigit c then (digits? isDigit cs).map (c :: ·) else none

/-- The number that digits of the given base denote, underscores left out. -/
def naturalOf? (base : Nat) (cs : List Char) : Option Nat :=
  (digits? (isDigitOf base) cs).map (numberOf base)

/-- The digits of a decimal number; no zero stands in front of another digit. -/
def decimalDigits? (cs : List Char) : Option (List Char) :=
  match digits? Char.isDigit cs with
  | some ('0' :: _ :: _) => none
  | ds => ds

/-- A number without its sign, and whether that is a minus. -/
def unsigned : List Char → Bool × List Char
  | '-' :: cs => (true, cs)
  | '+' :: cs => (false, cs)
  | cs => (false, cs)

/-- The whole number that is written, if it is one. -/
def wholeOf? : List Char → Option Int
  | '0' :: 'x' :: cs => (naturalOf? 16 cs).map Int.ofNat
  | '0' :: 'o' :: cs => (naturalOf? 8 cs).map Int.ofNat
  | '0' :: 'b' :: cs => (naturalOf? 2 cs).map Int.ofNat
  | cs =>
    let (negative, ds) := unsigned cs
    (decimalDigits? ds).map fun ds =>
      if negative then -(numberOf 10 ds : Int) else numberOf 10 ds

/-- A whole number of 64 bits. -/
def fitsWord (n : Int) : Bool := Int64.minValue.toInt ≤ n && n ≤ Int64.maxValue.toInt

/-- A decimal number taken apart : whether it is negative, its digits, and the power of ten of the
last one. -/
structure Decimal where
  negative : Bool
  digits : List Char
  exponent : Int

/-- The exponent of a number, from its letter on. -/
def exponent? : List Char → Option Int
  | [] => some 0
  | e :: cs =>
    if e = 'e' || e = 'E' then
      let (negative, ds) := unsigned cs
      (digits? Char.isDigit ds).map fun ds =>
        if negative then -(numberOf 10 ds : Int) else numberOf 10 ds
    else none

/-- The decimal number that is written with a point or an exponent, if it is one. -/
def decimalOf? (cs : List Char) : Option Decimal := do
  let isPart (c : Char) : Bool := c.isDigit || c == '_'
  let (negative, cs) := unsigned cs
  let whole ← decimalDigits? (cs.takeWhile isPart)
  match cs.dropWhile isPart with
  | [] => none
  | '.' :: cs =>
    let fraction ← digits? Char.isDigit (cs.takeWhile isPart)
    let e ← exponent? (cs.dropWhile isPart)
    return ⟨negative, whole ++ fraction, e - fraction.length⟩
  | cs => return ⟨negative, whole, ← exponent? cs⟩

namespace Decimal

/-- The least number that is rounded to infinity instead of a floating-point number of 64 bits. -/
def overflow : Nat := Nat.pow 2 1024 - Nat.pow 2 970

/-- The number is less than `overflow`. Numbers with an exponent beyond 400 are told without working
out the power. -/
def isFinite (d : Decimal) : Bool :=
  let n := numberOf 10 d.digits
  if d.negative || n = 0 then true
  else if d.exponent < 0 then
    d.digits.length < d.exponent.natAbs || n < overflow * Nat.pow 10 d.exponent.natAbs
  else d.exponent ≤ 400 && n * Nat.pow 10 d.exponent.natAbs < overflow

end Decimal

/-- A number without digits : infinity, or none at all. -/
def isSpecial (cs : List Char) : Bool :=
  let (_, cs) := unsigned cs
  cs == "inf".toList || cs == "nan".toList

/-! ## Values -/

/-- A character that may stand in a value without quotes. -/
def isBareChar (c : Char) : Bool :=
  c.isAlphanum || c == '_' || c == '+' || c == '-' || c == '.' || c == ':'

/-- The value that is written. -/
def bareOf? (cs : List Char) : Option Json :=
  if cs = "true".toList then some (.bool true)
  else if cs = "false".toList then some (.bool false)
  else
    match wholeOf? cs, momentOf? cs with
    | some n, _ => if fitsWord n then some (.int n) else none
    | none, some text => some (momentJson text)
    | none, none =>
      if isSpecial cs || (decimalOf? cs).any Decimal.isFinite then some (.real (String.ofList cs))
      else none

/-- Reads a value without quotes. -/
def readBare (cs : List Char) : Option (Json × List Char) := do
  let run := cs.takeWhile isBareChar
  let rest := cs.dropWhile isBareChar
  let j ← bareOf? run
  match readDate? run, rest with
  | some (date, []), ' ' :: cs =>
    match zonedTimeOf? (cs.takeWhile isBareChar) with
    | some time => return (momentJson (moment date time), cs.dropWhile isBareChar)
    | none => return (j, rest)
  | _, _ => return (j, rest)

end ArchiveLabels.Toml
