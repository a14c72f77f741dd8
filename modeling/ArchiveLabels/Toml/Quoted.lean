import ArchiveLabels.Json.Reader
import ArchiveLabels.Toml.Layout

/-!
# Strings of TOML texts

A string stands between single quotes, as it is, or between double quotes, with escapes. Three
quotes at each end let it go over several lines; of those quotes, up to two more may stand in front
of the last three.
-/

namespace ArchiveLabels.Toml

/-- The characters of a string, and what follows it. -/
abbrev Read := Option (List Char × List Char)

/-- One character more in front. -/
def Read.cons (c : Char) (r : Read) : Read :=
  r.map fun (s, rest) => (c :: s, rest)

/-- The end of a long string, from behind three quotes : the quotes that belong to it, and what
follows. -/
def closing (quote : Char) : List Char → List Char × List Char
  | a :: b :: cs =>
    if a = quote && b = quote then ([a, b], cs)
    else if a = quote then ([a], b :: cs)
    else ([], a :: b :: cs)
  | [a] => if a = quote then ([a], []) else ([], [a])
  | [] => ([], [])

/-- The character of the number that hexadecimal digits denote, if it is one. -/
def scalar? (digits : List Char) : Option Char :=
  let n := Text.numberOf 16 digits
  if digits.all (Text.isDigitOf 16) && n.isValidChar then some (Char.ofNat n) else none

/-- The character that a single letter after a backslash denotes. -/
def escaped? (c : Char) : Option Char :=
  if c = '/' then none else Json.unescaped? c

/-- Nothing but blanks is left of the line. -/
def endsLine (cs : List Char) : Bool :=
  (afterNewline? (skipBlanks cs)).isSome

/-- Reads a string from behind the double quotes in front of it. A backslash at the end of a line of
a long string takes away the blanks and ends of lines behind it : `skips` says that they are being
skipped. -/
def readEscaped (long : Bool) (skips : Bool) : List Char → Read
  | [] => none
  | '"' :: cs =>
    if !long then some ([], cs)
    else
      match cs with
      | '"' :: '"' :: rest => some (closing '"' rest)
      | _ => (readEscaped long false cs).cons '"'
  | '\r' :: '\n' :: cs =>
    if !long then none
    else if skips then readEscaped long true cs
    else (readEscaped long false cs).cons '\n'
  | '\n' :: cs =>
    if !long then none
    else if skips then readEscaped long true cs
    else (readEscaped long false cs).cons '\n'
  | '\\' :: cs =>
    if long && endsLine cs then readEscaped long true cs
    else
      match cs with
      | 'u' :: a :: b :: c :: d :: rest => do
        (readEscaped long false rest).cons (← scalar? [a, b, c, d])
      | 'U' :: a :: b :: c :: d :: e :: f :: g :: h :: rest => do
        (readEscaped long false rest).cons (← scalar? [a, b, c, d, e, f, g, h])
      | c :: rest => do (readEscaped long false rest).cons (← escaped? c)
      | [] => none
  | c :: cs =>
    if skips && isBlank c then readEscaped long true cs
    else if isPlain c then (readEscaped long false cs).cons c
    else none

/-- Reads a string from behind the single quotes in front of it. -/
def readLiteral (long : Bool) : List Char → Read
  | [] => none
  | '\'' :: cs =>
    if !long then some ([], cs)
    else
      match cs with
      | '\'' :: '\'' :: rest => some (closing '\'' rest)
      | _ => (readLiteral long cs).cons '\''
  | '\r' :: '\n' :: cs => if long then (readLiteral long cs).cons '\n' else none
  | c :: cs =>
    if isPlain c || (long && c == '\n') then (readLiteral long cs).cons c else none

/-- The text without the end of a line in front. -/
def dropNewline (cs : List Char) : List Char := (afterNewline? cs).getD cs

/-- Reads a string that does not go over lines. -/
def readShort : List Char → Read
  | '"' :: cs => readEscaped false false cs
  | '\'' :: cs => readLiteral false cs
  | _ => none

/-- Reads a string. -/
def readString : List Char → Read
  | '"' :: '"' :: '"' :: cs => readEscaped true false (dropNewline cs)
  | '\'' :: '\'' :: '\'' :: cs => readLiteral true (dropNewline cs)
  | cs => readShort cs

end ArchiveLabels.Toml
