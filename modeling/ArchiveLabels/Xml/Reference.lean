import ArchiveLabels.Text.Digits
import ArchiveLabels.Xml.Fault

/-!
# Character data

What attribute values and text stand for : references are replaced, white space in attribute values
becomes spaces, line ends in text become line feeds.
-/

namespace ArchiveLabels.Xml

open Text

/-- What a reference stands for. -/
inductive Reference where
  /-- A character. -/
  | char (c : Char)
  /-- The entity of the given name. -/
  | entity (name : String)
deriving DecidableEq, Repr

/-- The number that a non-empty list of digits denotes, if it is below 2 ^ 32. -/
def codePoint? (base : Nat) (cs : List Char) : Option Nat :=
  let n := numberOf base cs
  if !cs.isEmpty && n < UInt32.size then some n else none

/-- The character of the given number, U+FFFD if the number is none of a character. -/
def charOfCode (n : Nat) : Char :=
  if n.isValidChar then Char.ofNat n else Char.ofNat 0xFFFD

/-- The five entities that need no declaration. -/
def namedReference (name : String) : Reference :=
  match name with
  | "quot" => .char '"'
  | "amp" => .char '&'
  | "apos" => .char '\''
  | "lt" => .char '<'
  | "gt" => .char '>'
  | _ => .entity name

/-- What stands between `&` and `;`, read from the start of `cs`; with it, how many characters it
has. -/
def referenceBody? : List Char → Option (Reference × Nat)
  | '#' :: 'x' :: cs =>
    let digits := cs.takeWhile (isDigitOf 16)
    match codePoint? 16 digits with
    | some n =>
      if isXmlChar (charOfCode n) then some (.char (charOfCode n), digits.length + 2) else none
    | none => none
  | '#' :: cs =>
    let digits := cs.takeWhile Char.isDigit
    match codePoint? 10 digits with
    | some n =>
      if isXmlChar (charOfCode n) then some (.char (charOfCode n), digits.length + 1) else none
    | none => none
  | c :: cs =>
    if isNameStart c then
      let name := c :: cs.takeWhile isNameChar
      some (namedReference (String.ofList name), name.length)
    else none
  | [] => none

/-- The reference whose `&` stands before `cs`; with it, how many characters of `cs` it takes. -/
def reference? (cs : List Char) : Option (Reference × Nat) :=
  match referenceBody? cs with
  | some (r, n) => if (cs.drop n).head? = some ';' then some (r, n + 1) else none
  | none => none

/-- The character that the reference behind an `&` at `p` stands for, and the length of the
reference. -/
def referenced (cs : List Char) (p : Position) : Except Fault (Char × Nat) :=
  match reference? cs with
  | some (.char c, n) => .ok (c, n)
  | some (.entity name, _) => .error (.located (.unknownEntity name) p)
  | none => .error (.located .malformedReference p)

/-- The value of an attribute written `cs` at `p`. -/
def attributeValue (cs : List Char) (p : Position) : Except Fault (List Char) :=
  match cs with
  | [] => .ok []
  | '&' :: cs => do
    let (c, n) ← referenced cs p
    let value ← attributeValue (cs.drop n) ((p.after '&').advance (cs.take n))
    return c :: value
  | '\r' :: '\n' :: cs => do
    let value ← attributeValue cs ((p.after '\r').after '\n')
    return ' ' :: value
  | c :: cs => do
    let value ← attributeValue cs (p.after c)
    return (if isSpace c then ' ' else c) :: value
termination_by cs.length
decreasing_by all_goals (simp; try omega)

/-- Puts the next character `c` of a text behind what it stands for so far, `out`, whose last
character comes first. A carriage return is settled when the character after it is known, or with
the last character : it becomes a line feed, and a line feed behind it is dropped. -/
def pushText (out : List Char) (c : Char) (isLast : Bool) : List Char :=
  let out' :=
    match out with
    | '\r' :: os => if c = '\n' then '\n' :: os else c :: '\n' :: os
    | _ => c :: out
  match isLast, out' with
  | true, '\r' :: os => '\n' :: os
  | _, _ => out'

/-- What a text written `cs` at `p` stands for, with its last character first. The character of a
reference, and the one behind the reference, are taken as they are. -/
def textValueFrom (out : List Char) (asIs : Bool) (cs : List Char) (p : Position) :
    Except Fault (List Char) :=
  match cs with
  | [] => .ok out
  | '&' :: cs => do
    let (c, n) ← referenced cs p
    textValueFrom (c :: out) true (cs.drop n) ((p.after '&').advance (cs.take n))
  | c :: cs =>
    textValueFrom (if asIs then c :: out else pushText out c cs.isEmpty) false cs (p.after c)
termination_by cs.length
decreasing_by all_goals (simp; try omega)

/-- What a text written `cs` at `p` stands for. -/
def textValue (cs : List Char) (p : Position) : Except Fault (List Char) :=
  (textValueFrom [] false cs p).map List.reverse

/-- What a section of character data stands for, given what its start stands for, last character
first. -/
def sectionValueFrom (out : List Char) : List Char → List Char
  | [] => out.reverse
  | c :: cs => sectionValueFrom (pushText out c cs.isEmpty) cs

/-- What a section of character data stands for. -/
def sectionValue (cs : List Char) : List Char :=
  sectionValueFrom [] cs

end ArchiveLabels.Xml
