/-!
# Letter case

Keywords, extensions and class names are compared without regard to the case of the letters A to Z.
Other letters keep their case.
-/

namespace ArchiveLabels.Text

/-- The text with the letters A to Z in lower case. -/
def lower (s : String) : String :=
  String.ofList (s.toList.map Char.toLower)

/-- Two texts that differ at most in the case of the letters A to Z. -/
def sameLetters (a b : String) : Bool :=
  lower a == lower b

end ArchiveLabels.Text
