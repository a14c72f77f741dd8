import ArchiveLabels.Text.Lines

/-!
# Name patterns

A `*` in a name pattern stands for any characters, also none. The pieces of the pattern between its
stars are searched from left to right, each at the first place where it occurs.
-/

namespace ArchiveLabels.Selector

open Text

/-- What follows `part` in front of `cs`. -/
def dropFront? (part cs : List Char) : Option (List Char) :=
  if part.isPrefixOf cs then some (cs.drop part.length) else none

/-- What follows the first occurrence of `part` in `cs`. -/
def dropThrough? (part : List Char) : List Char → Option (List Char)
  | [] => if part.isEmpty then some [] else none
  | c :: cs =>
    if part.isPrefixOf (c :: cs) then some ((c :: cs).drop part.length) else dropThrough? part cs

/-- The pieces `parts` occur in `cs` one after the other, the last of them at the end. -/
def matchesParts : List (List Char) → List Char → Bool
  | [], cs => cs.isEmpty
  | [last], cs => last.isSuffixOf cs
  | part :: parts, cs =>
    match dropThrough? part cs with
    | some rest => matchesParts parts rest
    | none => false

/-- The name fits the pattern. -/
def matchesName (pattern name : String) : Bool :=
  match pieces '*' pattern.toList with
  | [] => false
  | [whole] => whole == name.toList
  | first :: parts =>
    match dropFront? first name.toList with
    | some rest => matchesParts parts rest
    | none => false

end ArchiveLabels.Selector
