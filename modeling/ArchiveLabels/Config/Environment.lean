import ArchiveLabels.Json.Merge
import ArchiveLabels.Table
import ArchiveLabels.Text.Blank
import ArchiveLabels.Text.Fold
import ArchiveLabels.Text.Lines
import ArchiveLabels.Toml.Reader

/-!
# Settings in environment variables

A variable whose name starts with `HARVEST_` gives a setting; two underscores in its name lead from
a setting to one inside it. Its value is a number, a truth value, a list, a table or a string, and
what is none of these is taken as a string as it stands. Strings in quotes and keys are written as
in TOML texts.
-/

namespace ArchiveLabels.Environment

open Text

/-! ## Values -/

/-- A character that ends a value without quotes. -/
def isSeparator (c : Char) : Bool :=
  c == ',' || c == '\x7b' || c == '\x7d' || c == '[' || c == ']'

/-- A character that is skipped around values. -/
def isSpace (c : Char) : Bool :=
  c == ' ' || c == '\t' || c == '\n' || c == '\r' || c == Char.ofNat 0x0C

/-- Skips what is skipped around values. -/
def skipSpaces (cs : List Char) : List Char := cs.dropWhile isSpace

/-- The whole number of 64 bits, with or without sign, that is written, if there is one. -/
def wholeOf? : List Char → Option Int
  | '-' :: '+' :: _ => none
  | '-' :: ds => (unsigned? (Int64.minValue.toInt.natAbs + 1) ds).map fun n => -(n : Int)
  | ds => (unsigned? UInt64.size ds).map Int.ofNat

/-- What follows a sign, if there is one. -/
def dropSign : List Char → List Char
  | '-' :: cs => cs
  | '+' :: cs => cs
  | cs => cs

/-- A fraction is written : digits with a point in front, behind or among them, and perhaps an
exponent. -/
def isFraction (cs : List Char) : Bool :=
  let cs := dropSign cs
  let whole := cs.takeWhile Char.isDigit
  match cs.dropWhile Char.isDigit with
  | '.' :: cs =>
    let exponent := cs.dropWhile Char.isDigit
    !(whole.isEmpty && (cs.takeWhile Char.isDigit).isEmpty) &&
      match exponent with
      | [] => true
      | e :: ds =>
        let ds := dropSign ds
        (e == 'e' || e == 'E') && !ds.isEmpty && ds.all Char.isDigit
  | _ => false

/-- The value without quotes that is written. -/
def bareOf (cs : List Char) : Json :=
  if isFraction cs then .real (String.ofList cs)
  else
    match wholeOf? cs with
    | some n => .int n
    | none => .str (String.ofList cs)

/-- Reads the key of a field. -/
def readKey (cs : List Char) : Option (String × List Char) :=
  match cs with
  | '"' :: cs => (Toml.readEscaped false false cs).map fun (s, rest) => (String.ofList s, rest)
  | cs =>
    let key := cs.takeWhile Toml.isKeyChar
    if key.isEmpty then none else some (String.ofList key, cs.dropWhile Toml.isKeyChar)

mutual

/-- Reads a value. -/
def readValue : Nat → List Char → Option (Json × List Char)
  | 0, _ => none
  | fuel + 1, cs => do
    let (j, rest) ←
      match skipSpaces cs with
      | 't' :: 'r' :: 'u' :: 'e' :: cs => some (.bool true, cs)
      | 'f' :: 'a' :: 'l' :: 's' :: 'e' :: cs => some (.bool false, cs)
      | '\x7b' :: cs =>
        (readFields fuel cs).map fun (fs, rest) => (.obj (Table.ofList Table.textLess fs), rest)
      | '[' :: cs => (readItems fuel cs).map fun (js, rest) => (.arr js, rest)
      | '"' :: cs =>
        (Toml.readEscaped false false cs).map fun (s, rest) => (.str (String.ofList s), rest)
      | '\'' :: c :: '\'' :: cs => some (.str c.toString, cs)
      | '\'' :: _ => none
      | cs =>
        some (bareOf (trimChars (cs.takeWhile fun c => !isSeparator c)),
          cs.dropWhile fun c => !isSeparator c)
    return (j, skipSpaces rest)

/-- Reads the items of a list and the bracket behind them. -/
def readItems : Nat → List Char → Option (List Json × List Char)
  | 0, _ => none
  | fuel + 1, cs =>
    match cs with
    | ']' :: rest => some ([], rest)
    | cs => do
      let (j, cs) ← readValue fuel cs
      match cs with
      | ',' :: cs =>
        let (js, rest) ← readItems fuel cs
        return (j :: js, rest)
      | ']' :: rest => return ([j], rest)
      | _ => none

/-- Reads the fields of a table and the brace behind them. -/
def readFields : Nat → List Char → Option (List (String × Json) × List Char)
  | 0, _ => none
  | fuel + 1, cs =>
    match cs with
    | '\x7d' :: rest => some ([], rest)
    | cs => do
      let (key, cs) ← readKey (skipSpaces cs)
      match skipSpaces cs with
      | '=' :: cs =>
        let (j, cs) ← readValue fuel cs
        match cs with
        | ',' :: cs =>
          let (fs, rest) ← readFields fuel cs
          return ((key, j) :: fs, rest)
        | '\x7d' :: rest => return ([(key, j)], rest)
        | _ => none
      | _ => none

end

/-- The value of a variable. A text that is not read to its end is a string, with the blanks around
it. -/
def valueOf (text : String) : Json :=
  let cs := text.toList
  match readValue (2 * cs.length + 2) cs with
  | some (j, []) => j
  | _ => .str text

/-! ## Names -/

/-- What the names of variables that give settings start with. -/
def nameStart : String := "harvest_"

/-- The characters of a name, in which a dot stands for two underscores. -/
def dotted : List Char → List Char
  | '_' :: '_' :: cs => '.' :: dotted cs
  | c :: cs => c :: dotted cs
  | [] => []

/-- The keys that lead to the setting that a variable of the given name gives. -/
def keysOf? (name : String) : Option (List String) :=
  let cs := trimChars (lower name).toList
  if cs.take nameStart.length = nameStart.toList then
    let keys := pieces '.' (trimChars (dotted (cs.drop nameStart.length)))
    if keys.any List.isEmpty then none else some (keys.map String.ofList)
  else none

/-- The settings that consist of one value. -/
def settingsAt : List String → Json → Json
  | [], j => j
  | k :: ks, j => .obj [(k, settingsAt ks j)]

/-- The settings that variables give. -/
def settings (environment : List (String × String)) : Json :=
  environment.foldl (fun j v =>
    match keysOf? v.1 with
    | some keys => Json.merge j (settingsAt keys (valueOf v.2))
    | none => j) (.obj [])

end ArchiveLabels.Environment
