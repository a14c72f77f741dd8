import ArchiveLabels.Text.Blank

/-!
# Delimited tables

A table is a text of rows, each of fields with a delimiter between them. A field that starts with a
quote goes on to the next quote; there, two quotes stand for one, and delimiters and line ends for
themselves.
-/

namespace ArchiveLabels.Text

/-- Where in a table a reader stands. -/
inductive TablePlace where
  /-- Before a row. -/
  | rowStart
  /-- Before a further field of a row. -/
  | fieldStart
  /-- In a field without quotes, or behind the last quote of a field. -/
  | bare
  /-- Between the quotes of a field. -/
  | quoted
  /-- Behind a quote in a field, which ends the quotes unless another one follows. -/
  | afterQuote
deriving DecidableEq, Repr

/-- A character that ends a row. -/
def isRowEnd (c : Char) : Bool := c == '\n' || c == '\r'

/-- Reads the rows of a table : `row` are the fields of the row under way, last first, and `field`
the characters of the field under way, last first. Rows of no characters do not count. -/
def readRows (delimiter : Char) :
    TablePlace → List (List Char) → List Char → List Char → List (List (List Char))
  | .rowStart, _, _, [] => []
  | _, row, field, [] => [(field.reverse :: row).reverse]
  | .quoted, row, field, c :: cs =>
    if c = '"' then readRows delimiter .afterQuote row field cs
    else readRows delimiter .quoted row (c :: field) cs
  | place, row, field, c :: cs =>
    if c = '"' && place = .afterQuote then readRows delimiter .quoted row ('"' :: field) cs
    else if c = '"' && place ≠ .bare then readRows delimiter .quoted row field cs
    else if c = delimiter then readRows delimiter .fieldStart (field.reverse :: row) [] cs
    else if isRowEnd c then
      if place = .rowStart then readRows delimiter .rowStart [] [] cs
      else (field.reverse :: row).reverse :: readRows delimiter .rowStart [] [] cs
    else readRows delimiter .bare row (c :: field) cs

/-- The mark that may stand in front of a text. -/
def byteOrderMark : Char := Char.ofNat 0xFEFF

/-- A text without the mark in front. -/
def withoutMark : List Char → List Char
  | [] => []
  | c :: cs => if c = byteOrderMark then cs else c :: cs

/-- The rows of a table, with the blanks around their fields dropped. -/
def rows (delimiter : Char) (text : String) : List (List String) :=
  (readRows delimiter .rowStart [] [] (withoutMark text.toList)).map fun row =>
    row.map fun field => String.ofList (trimChars field)

end ArchiveLabels.Text
