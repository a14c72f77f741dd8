/-!
# Numbers in digits

`numberOf` is the number that digits of a base up to sixteen denote, the first one counting most
(`numberOf_append`). `unsigned?` reads a decimal number of limited size.
-/

namespace ArchiveLabels.Text

/-- The value of a digit or of one of the letters A to F. -/
def digitValue? (c : Char) : Option Nat :=
  if c.isDigit then some (c.toNat - '0'.toNat)
  else if 'a' ≤ c && c ≤ 'f' then some (c.toNat - 'a'.toNat + 10)
  else if 'A' ≤ c && c ≤ 'F' then some (c.toNat - 'A'.toNat + 10)
  else none

/-- The value of a digit, zero for other characters. -/
def digitValue (c : Char) : Nat := (digitValue? c).getD 0

/-- A digit of the given base. -/
def isDigitOf (base : Nat) (c : Char) : Bool := (digitValue? c).any (· < base)

/-- The number that digits of the given base denote. -/
def numberOf (base : Nat) (ds : List Char) : Nat :=
  ds.foldl (fun n d => n * base + digitValue d) 0

/-- A digit behind others. -/
theorem numberOf_append (base : Nat) (ds : List Char) (d : Char) :
    numberOf base (ds ++ [d]) = numberOf base ds * base + digitValue d := by
  simp [numberOf]

/-- The number below `bound` that decimal digits denote, perhaps with a plus in front. -/
def unsigned? (bound : Nat) (cs : List Char) : Option Nat :=
  let ds := match cs with
    | '+' :: ds => ds
    | ds => ds
  let n := numberOf 10 ds
  if !ds.isEmpty && ds.all Char.isDigit && n < bound then some n else none

end ArchiveLabels.Text
