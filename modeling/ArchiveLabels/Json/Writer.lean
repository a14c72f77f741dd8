import ArchiveLabels.Json.Basic

/-!
# JSON texts

`Json.compact` writes a value without blanks, `Json.pretty` over several lines, two spaces for each
level. Both escape a character of a string only if JSON demands it.
-/

namespace ArchiveLabels.Json

/-- A hexadecimal digit in lower case. -/
def hexChar (n : Nat) : Char :=
  if n < 10 then Char.ofNat (n + '0'.toNat) else Char.ofNat (n - 10 + 'a'.toNat)

/-- A character of a string as it is written between quotes. -/
def escapedChar (c : Char) : List Char :=
  if c = '"' then ['\\', '"']
  else if c = '\\' then ['\\', '\\']
  else if c.toNat < 0x20 then
    if c.toNat = 0x08 then ['\\', 'b']
    else if c.toNat = 0x09 then ['\\', 't']
    else if c.toNat = 0x0A then ['\\', 'n']
    else if c.toNat = 0x0C then ['\\', 'f']
    else if c.toNat = 0x0D then ['\\', 'r']
    else ['\\', 'u', '0', '0', hexChar (c.toNat / 16), hexChar (c.toNat % 16)]
  else [c]

/-- The characters of a string, escaped. -/
def escaped : List Char → List Char
  | [] => []
  | c :: cs => escapedChar c ++ escaped cs

/-- A string in quotes. -/
def quoted (s : String) : List Char :=
  '"' :: (escaped s.toList ++ ['"'])

mutual

/-- A value without blanks. -/
def compactChars : Json → List Char
  | .null => "null".toList
  | .bool true => "true".toList
  | .bool false => "false".toList
  | .int n => (toString n).toList
  | .real text => text.toList
  | .broken text => text.toList
  | .str s => quoted s
  | .arr items => '[' :: (compactItems items ++ [']'])
  | .obj fields => '\x7b' :: (compactFields fields ++ ['\x7d'])
termination_by structural j => j

/-- The items of a list with commas between them. -/
def compactItems : List Json → List Char
  | [] => []
  | j :: js => compactChars j ++ (if js.isEmpty then [] else ',' :: compactItems js)
termination_by structural js => js

/-- The fields of an object with commas between them. -/
def compactFields : List (String × Json) → List Char
  | [] => []
  | f :: fs => compactField f ++ (if fs.isEmpty then [] else ',' :: compactFields fs)
termination_by structural fs => fs

/-- A field of an object. -/
def compactField : String × Json → List Char
  | (name, value) => quoted name ++ ':' :: compactChars value
termination_by structural f => f

end

/-- A value on one line, without blanks. -/
def compact (j : Json) : String :=
  String.ofList (compactChars j)

/-- The start of a line of the given level. -/
def newLine (level : Nat) : List Char :=
  '\n' :: List.replicate (2 * level) ' '

mutual

/-- A value over several lines, the first of which stands at the given level. -/
def prettyChars (level : Nat) : Json → List Char
  | .null => "null".toList
  | .bool true => "true".toList
  | .bool false => "false".toList
  | .int n => (toString n).toList
  | .real text => text.toList
  | .broken text => text.toList
  | .str s => quoted s
  | .arr items =>
    if items.isEmpty then ['[', ']']
    else '[' :: (prettyItems (level + 1) items ++ (newLine level ++ [']']))
  | .obj fields =>
    if fields.isEmpty then ['\x7b', '\x7d']
    else '\x7b' :: (prettyFields (level + 1) fields ++ (newLine level ++ ['\x7d']))
termination_by structural j => j

/-- The items of a list, each on a line of its own. -/
def prettyItems (level : Nat) : List Json → List Char
  | [] => []
  | j :: js =>
    newLine level ++ prettyChars level j ++ (if js.isEmpty then [] else ',' :: prettyItems level js)
termination_by structural js => js

/-- The fields of an object, each on a line of its own. -/
def prettyFields (level : Nat) : List (String × Json) → List Char
  | [] => []
  | f :: fs =>
    newLine level ++ prettyField level f ++
      (if fs.isEmpty then [] else ',' :: prettyFields level fs)
termination_by structural fs => fs

/-- A field of an object. -/
def prettyField (level : Nat) : String × Json → List Char
  | (name, value) => quoted name ++ ':' :: ' ' :: prettyChars level value
termination_by structural f => f

end

/-- A value over several lines. -/
def pretty (j : Json) : String :=
  String.ofList (prettyChars 0 j)

end ArchiveLabels.Json
