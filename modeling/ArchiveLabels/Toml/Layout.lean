/-!
# The layout of TOML texts

Blanks, comments and ends of lines. A line ends in a line feed, with or without a carriage return in
front; a carriage return of its own stands nowhere.
-/

namespace ArchiveLabels.Toml

/-- A character that may stand between tokens. -/
def isBlank (c : Char) : Bool := c == ' ' || c == '\t'

/-- A character that may stand in a comment or between quotes : no control character but the tab. -/
def isPlain (c : Char) : Bool :=
  c == '\t' || (0x20 ≤ c.toNat && c.toNat != 0x7F)

/-- What follows the character `c`. -/
def after? (c : Char) : List Char → Option (List Char)
  | d :: cs => if d = c then some cs else none
  | [] => none

/-- Skips blanks. -/
def skipBlanks (cs : List Char) : List Char := cs.dropWhile isBlank

/-- What follows the end of a line. -/
def afterNewline? : List Char → Option (List Char)
  | '\n' :: cs => some cs
  | '\r' :: '\n' :: cs => some cs
  | _ => none

/-- Skips blanks, comments and ends of lines. -/
def skipLayout : List Char → List Char
  | '\n' :: cs => skipLayout cs
  | '\r' :: '\n' :: cs => skipLayout cs
  | '#' :: cs => skipLayout (cs.dropWhile isPlain)
  | c :: cs => if isBlank c then skipLayout cs else c :: cs
  | [] => []
termination_by cs => cs.length
decreasing_by
  all_goals simp_all
  all_goals
    have := (List.dropWhile_sublist isPlain (l := cs)).length_le
    omega

/-- What follows the line, if nothing but a comment is left of it. -/
def afterLine? (cs : List Char) : Option (List Char) :=
  match skipBlanks cs with
  | [] => some []
  | '#' :: cs =>
    match cs.dropWhile isPlain with
    | [] => some []
    | cs => afterNewline? cs
  | cs => afterNewline? cs

end ArchiveLabels.Toml
