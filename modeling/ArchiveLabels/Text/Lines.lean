/-!
# Lines

`lines` cuts a text at its line feeds. A carriage return in front of the line feed belongs to it,
and a text that ends in a line feed has no further, empty line.
-/

namespace ArchiveLabels.Text

/-- A line, given last character first, without the carriage return at its end. -/
def dropReturn : List Char → List Char
  | '\r' :: cs => cs
  | cs => cs

/-- The lines of a list of characters, `line` (last character first) being under way. -/
def linesFrom (line : List Char) : List Char → List (List Char)
  | [] => if line.isEmpty then [] else [line.reverse]
  | '\n' :: cs => (dropReturn line).reverse :: linesFrom [] cs
  | c :: cs => linesFrom (c :: line) cs

/-- The lines of a text. -/
def lines (s : String) : List String :=
  (linesFrom [] s.toList).map String.ofList

/-- The pieces of a list of characters between the occurrences of `separator`. -/
def pieces (separator : Char) : List Char → List (List Char)
  | [] => [[]]
  | c :: cs =>
    if c = separator then [] :: pieces separator cs
    else
      match pieces separator cs with
      | [] => [[c]]
      | p :: ps => (c :: p) :: ps

end ArchiveLabels.Text
