import ArchiveLabels.Toml.Bare
import ArchiveLabels.Toml.Quoted
import ArchiveLabels.Toml.Table

/-!
# Reading TOML texts

`Toml.parse?` reads a text of lines : headers of tables, and keys with values. Each read function is
given the rest of the text and gives what it read with what follows; the number that bounds its
steps is the length of the text. Values stand in each other, and keys behind each other, fewer than
`nestingBound` times.
-/

namespace ArchiveLabels.Toml

/-- Neither as many keys stand in a row nor as many brackets around a value. -/
def nestingBound : Nat := 80

/-! ## Keys -/

/-- A character that may stand in a key without quotes. -/
def isKeyChar (c : Char) : Bool := c.isAlphanum || c == '_' || c == '-'

/-- Reads a key without dots. -/
def readPlainKey (cs : List Char) : Option (String × List Char) :=
  match readShort cs with
  | some (s, rest) => some (String.ofList s, rest)
  | none =>
    let key := cs.takeWhile isKeyChar
    if key.isEmpty then none else some (String.ofList key, cs.dropWhile isKeyChar)

/-- Reads keys with dots between them, at most `room` : those in front, and the last one. -/
def readRow : Nat → List Char → Option ((List String × String) × List Char)
  | 0, _ => none
  | room + 1, cs => do
    let (key, cs) ← readPlainKey (skipBlanks cs)
    match skipBlanks cs with
    | '.' :: cs =>
      let ((keys, last), cs) ← readRow room cs
      return ((key :: keys, last), cs)
    | cs => return (([], key), cs)

/-- Reads keys with dots between them. -/
def readKeys (cs : List Char) : Option ((List String × String) × List Char) :=
  readRow (nestingBound - 1) cs

/-! ## Values -/

/-- A table in one piece. -/
def closed? (entries : List ((List String × String) × Json)) : Option Json :=
  Filling.ofLines? (entries.map fun e => .value e.1.1 e.1.2 e.2)

mutual

/-- Reads a value around which stand `depth` brackets. -/
def readValue : Nat → Nat → List Char → Option (Json × List Char)
  | 0, _, _ => none
  | fuel + 1, depth, cs =>
    match cs with
    | '[' :: cs =>
      if nestingBound ≤ depth + 1 then none
      else (readItems fuel (depth + 1) (skipLayout cs)).map fun (js, rest) => (.arr js, rest)
    | '\x7b' :: cs =>
      if nestingBound ≤ depth + 1 then none
      else
        match skipBlanks cs with
        | '\x7d' :: rest => some (.obj [], rest)
        | cs => do
          let (entries, rest) ← readEntries fuel (depth + 1) cs
          return (← closed? entries, rest)
    | '"' :: _ => (readString cs).map fun (s, rest) => (.str (String.ofList s), rest)
    | '\'' :: _ => (readString cs).map fun (s, rest) => (.str (String.ofList s), rest)
    | cs => readBare cs

/-- Reads the items of a list and the bracket behind them. -/
def readItems : Nat → Nat → List Char → Option (List Json × List Char)
  | 0, _, _ => none
  | fuel + 1, depth, cs =>
    match cs with
    | ']' :: rest => some ([], rest)
    | cs => do
      let (j, cs) ← readValue fuel depth cs
      match skipLayout cs with
      | ',' :: cs =>
        let (js, rest) ← readItems fuel depth (skipLayout cs)
        return (j :: js, rest)
      | ']' :: rest => return ([j], rest)
      | _ => none

/-- Reads the entries of a table in one piece and the brace behind them. -/
def readEntries :
    Nat → Nat → List Char → Option (List ((List String × String) × Json) × List Char)
  | 0, _, _ => none
  | fuel + 1, depth, cs => do
    let (entry, cs) ← readEntry fuel depth cs
    match skipBlanks cs with
    | ',' :: cs =>
      let (entries, rest) ← readEntries fuel depth cs
      return (entry :: entries, rest)
    | '\x7d' :: rest => return ([entry], rest)
    | _ => none

/-- Reads keys and their value. -/
def readEntry : Nat → Nat → List Char → Option (((List String × String) × Json) × List Char)
  | 0, _, _ => none
  | fuel + 1, depth, cs => do
    let (keys, cs) ← readKeys cs
    let cs ← after? '=' cs
    let (j, rest) ← readValue fuel depth (skipBlanks cs)
    return ((keys, j), rest)

end

/-! ## Lines -/

/-- Reads a line. -/
def readLine (fuel : Nat) : List Char → Option (Line × List Char)
  | '[' :: '[' :: cs => do
    let ((keys, key), cs) ← readKeys cs
    return (.listHeader keys key, ← after? ']' (← after? ']' cs))
  | '[' :: cs => do
    let ((keys, key), cs) ← readKeys cs
    return (.header keys key, ← after? ']' cs)
  | cs => do
    let (((keys, key), j), cs) ← readEntry fuel 0 cs
    return (.value keys key j, cs)

/-- Reads the lines of a text. -/
def readLines : Nat → List Char → Option (List Line)
  | 0, _ => none
  | fuel + 1, cs =>
    match skipLayout cs with
    | [] => some []
    | cs => do
      let (line, cs) ← readLine (fuel + 1) cs
      return line :: (← readLines fuel (← afterLine? cs))

/-- The text without the mark in front that says how it is encoded. -/
def dropMark : List Char → List Char
  | '\uFEFF' :: cs => cs
  | cs => cs

/-- The JSON value that a TOML text denotes. Each line, key, value, entry and item takes a character
of the text, and an entry takes two, which bounds the steps. -/
def parse? (text : String) : Option Json := do
  let cs := dropMark text.toList
  Filling.ofLines? (← readLines (2 * cs.length + 4) cs)

end ArchiveLabels.Toml
