import ArchiveLabels.Text.Blank

/-!
# Identifiers of products

A product is named by its logical identifier, one version of it by `IDENTIFIER::VERSION`. `parse`
reads such a token. `covers` is how a list of exclusions uses an identifier : without a version it
stands for every version.
-/

namespace ArchiveLabels

open Text

/-- A logical identifier with an optional version. -/
structure Identifier where
  /-- The logical identifier. -/
  lid : String
  /-- The version. -/
  version : Option String
deriving DecidableEq, Repr

/-- What is wrong with an identifier. -/
inductive Identifier.Fault where
  /-- Nothing stands before the version. -/
  | missingLid
  /-- Nothing stands behind the separator. -/
  | missingVersion
  /-- There are two separators. -/
  | extraSeparator
  /-- There is no version where there has to be one. -/
  | unversioned
deriving DecidableEq, Repr

/-- A text that is no identifier. -/
structure InvalidIdentifier where
  /-- The text, trimmed. -/
  value : String
  /-- What is wrong with it. -/
  fault : Identifier.Fault
deriving DecidableEq, Repr

namespace Identifier

/-- The wording of a fault. -/
def Fault.message : Fault → String
  | missingLid => "missing logical identifier"
  | missingVersion => "missing version after '::'"
  | extraSeparator => "more than one '::' separator"
  | unversioned => "expected a LID-VID reference"

/-- The text before the first separator `::` and the text behind it. -/
def cut? : List Char → Option (List Char × List Char)
  | [] => none
  | ':' :: ':' :: cs => some ([], cs)
  | c :: cs => (cut? cs).map fun (before, after) => (c :: before, after)

/-- Reads the version behind the separator. -/
def parseVersion (cs : List Char) : Except Fault (List Char) :=
  match cut? cs with
  | none => if cs.isEmpty then .error .missingVersion else .ok cs
  | some (before, _) => if before.isEmpty then .error .missingVersion else .error .extraSeparator

/-- Reads an identifier from trimmed characters. -/
def parseChars (cs : List Char) : Except Fault Identifier :=
  match cut? cs with
  | none => if cs.isEmpty then .error .missingLid else .ok ⟨String.ofList cs, none⟩
  | some (lid, after) =>
    if lid.isEmpty then .error .missingLid
    else
      match parseVersion after with
      | .error e => .error e
      | .ok version => .ok ⟨String.ofList lid, some (String.ofList version)⟩

/-- Reads an identifier. -/
def parse (token : String) : Except InvalidIdentifier Identifier :=
  match parseChars (trim token).toList with
  | .ok i => .ok i
  | .error fault => .error ⟨trim token, fault⟩

/-- Reads an identifier that has to have a version. -/
def parseVersioned (token : String) : Except InvalidIdentifier Identifier :=
  match parse token with
  | .error e => .error e
  | .ok i => if i.version.isSome then .ok i else .error ⟨trim token, .unversioned⟩

/-- The entry stands for the candidate : the logical identifiers are equal, and so are the versions
unless the entry has none. -/
def covers (entry candidate : Identifier) : Bool :=
  entry.lid == candidate.lid && (entry.version.isNone || entry.version == candidate.version)

/-- An identifier as it is written. -/
def written (i : Identifier) : String :=
  match i.version with
  | some version => i.lid ++ "::" ++ version
  | none => i.lid

/-- The order of lists of identifiers : by logical identifier, then without version first, then by
version. -/
def isLess (a b : Identifier) : Bool :=
  if a.lid = b.lid then
    match a.version, b.version with
    | none, some _ => true
    | some v, some w => decide (v < w)
    | _, none => false
  else decide (a.lid < b.lid)

end Identifier

namespace InvalidIdentifier

/-- The wording of the error. -/
def message (e : InvalidIdentifier) : String :=
  "Invalid identifier '" ++ e.value ++ "': " ++ e.fault.message

end InvalidIdentifier

end ArchiveLabels
