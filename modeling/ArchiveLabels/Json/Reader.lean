import ArchiveLabels.Json.Basic
import ArchiveLabels.Text.Digits

/-!
# Reading JSON texts

`Json.parse?` reads a text that holds one value. It accepts JSON and nothing else.
-/

namespace ArchiveLabels.Json

open Text

/-- White space between the tokens of a JSON text. -/
def isSpace (c : Char) : Bool :=
  c == ' ' || c == '\t' || c == '\n' || c == '\r'

/-- Skips white space. -/
def skipSpaces (cs : List Char) : List Char :=
  cs.dropWhile isSpace

/-- The number that four hexadecimal digits denote. -/
def hexValue4? (a b c d : Char) : Option Nat :=
  if [a, b, c, d].all (isDigitOf 16) then some (numberOf 16 [a, b, c, d]) else none

/-- The first of the two units that denote a character beyond U+FFFF. -/
def isHighSurrogate (n : Nat) : Bool := 0xD800 ≤ n && n < 0xDC00

/-- The second of those two units. -/
def isLowSurrogate (n : Nat) : Bool := 0xDC00 ≤ n && n < 0xE000

/-- The character that a single letter after a backslash denotes. -/
def unescaped? : Char → Option Char
  | '"' => some '"'
  | '\\' => some '\\'
  | '/' => some '/'
  | 'b' => some (Char.ofNat 0x08)
  | 'f' => some (Char.ofNat 0x0C)
  | 'n' => some '\n'
  | 'r' => some '\r'
  | 't' => some '\t'
  | _ => none

/-- The character that two units denote. -/
def ofSurrogates (high low : Nat) : Char :=
  Char.ofNat (0x10000 + (high - 0xD800) * 0x400 + (low - 0xDC00))

/-- Reads a string from behind its first quote to behind its last. It has no characters if it holds
half of a pair of surrogates. -/
def readString : List Char → Option (Option (List Char) × List Char)
  | [] => none
  | '"' :: cs => some (some [], cs)
  | '\\' :: 'u' :: a :: b :: c :: d :: cs => do
    let n ← hexValue4? a b c d
    if isHighSurrogate n then
      match cs with
      | '\\' :: 'u' :: a :: b :: c :: d :: cs => do
        let m ← hexValue4? a b c d
        let (s, rest) ← readString cs
        return (if isLowSurrogate m then s.map (ofSurrogates n m :: ·) else none, rest)
      | cs => do
        let (_, rest) ← readString cs
        return (none, rest)
    else
      let (s, rest) ← readString cs
      return (if isLowSurrogate n then none else s.map (Char.ofNat n :: ·), rest)
  | '\\' :: c :: cs => do
    let x ← unescaped? c
    let (s, rest) ← readString cs
    return (s.map (x :: ·), rest)
  | c :: cs =>
    if c.toNat < 0x20 || c = '\\' then none
    else do
      let (s, rest) ← readString cs
      return (s.map (c :: ·), rest)

/-- Reads the digits in front. -/
def readDigits (cs : List Char) : List Char × List Char :=
  (cs.takeWhile Char.isDigit, cs.dropWhile Char.isDigit)

/-- Reads the fraction of a number, if there is one. -/
def readFraction : List Char → Option (List Char × List Char)
  | '.' :: cs =>
    let (ds, rest) := readDigits cs
    if ds.isEmpty then none else some ('.' :: ds, rest)
  | cs => some ([], cs)

/-- Reads the exponent of a number, if there is one. -/
def readExponent : List Char → Option (List Char × List Char)
  | [] => some ([], [])
  | e :: cs =>
    if e = 'e' || e = 'E' then
      let (sign, cs) :=
        match cs with
        | '+' :: cs => (['+'], cs)
        | '-' :: cs => (['-'], cs)
        | cs => ([], cs)
      let (ds, rest) := readDigits cs
      if ds.isEmpty then none else some (e :: (sign ++ ds), rest)
    else some ([], e :: cs)

/-- Reads a number. -/
def readNumber (cs : List Char) : Option (Json × List Char) := do
  let (negative, cs) :=
    match cs with
    | '-' :: cs => (true, cs)
    | cs => (false, cs)
  let (ds, cs) := readDigits cs
  match ds with
  | [] => none
  | ['0'] => pure ()
  | '0' :: _ => none
  | _ => pure ()
  let (fraction, cs) ← readFraction cs
  let (exponent, cs) ← readExponent cs
  let sign := if negative then ['-'] else []
  let n := numberOf 10 ds
  if fraction.isEmpty && exponent.isEmpty && !(negative && n = 0) then
    return (.int (if negative then -(n : Int) else n), cs)
  else return (.real (String.ofList (sign ++ ds ++ fraction ++ exponent)), cs)

/-- A value without characters or fields, which is written in front of `rest`. -/
def unread (cs rest : List Char) : Json :=
  .broken (String.ofList (cs.take (cs.length - rest.length)))

mutual

/-- Reads a value; `fuel` bounds the number of values and items read one inside or behind the other.
-/
def readValue : Nat → List Char → Option (Json × List Char)
  | 0, _ => none
  | fuel + 1, cs =>
    match skipSpaces cs with
    | '\x7b' :: cs =>
      match skipSpaces cs with
      | '\x7d' :: cs => some (.obj [], cs)
      | fields =>
        (readFields fuel fields).map fun (fs, rest) =>
          (fs.elim (unread ('\x7b' :: cs) rest) .obj, rest)
    | '[' :: cs =>
      match skipSpaces cs with
      | ']' :: cs => some (.arr [], cs)
      | cs => (readItems fuel cs).map fun (js, rest) => (.arr js, rest)
    | '"' :: cs =>
      (readString cs).map fun (s, rest) =>
        (s.elim (unread ('"' :: cs) rest) fun s => .str (String.ofList s), rest)
    | 'n' :: 'u' :: 'l' :: 'l' :: cs => some (.null, cs)
    | 't' :: 'r' :: 'u' :: 'e' :: cs => some (.bool true, cs)
    | 'f' :: 'a' :: 'l' :: 's' :: 'e' :: cs => some (.bool false, cs)
    | cs => readNumber cs

/-- Reads the items of a list and the bracket behind them. -/
def readItems : Nat → List Char → Option (List Json × List Char)
  | 0, _ => none
  | fuel + 1, cs => do
    let (j, cs) ← readValue fuel cs
    match skipSpaces cs with
    | ',' :: cs =>
      let (js, rest) ← readItems fuel cs
      return (j :: js, rest)
    | ']' :: cs => return ([j], cs)
    | _ => none

/-- Reads the fields of an object and the brace behind them. There are none if a name holds half of
a pair of surrogates. -/
def readFields : Nat → List Char → Option (Option (List (String × Json)) × List Char)
  | 0, _ => none
  | fuel + 1, cs => do
    let (name, cs) ←
      match skipSpaces cs with
      | '"' :: cs => readString cs
      | _ => none
    let (j, cs) ←
      match skipSpaces cs with
      | ':' :: cs => readValue fuel cs
      | _ => none
    let f := name.map fun name => (String.ofList name, j)
    match skipSpaces cs with
    | ',' :: cs =>
      let (fs, rest) ← readFields fuel cs
      return (f.bind fun f => fs.map (f :: ·), rest)
    | '\x7d' :: cs => return (f.map fun f => [f], cs)
    | _ => none

end

/-- Reads a text that holds one value and nothing else. Each value and each item takes a character
or belongs to one that does, which bounds their number. -/
def parse? (s : String) : Option Json := do
  let cs := s.toList
  let (j, rest) ← readValue (2 * cs.length + 2) cs
  if (skipSpaces rest).isEmpty then some j else none

end ArchiveLabels.Json
