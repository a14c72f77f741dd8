import ArchiveLabels.Extraction.Extract

/-!
# Checks of labels and records

`structuralProblem?` says whether a text that could be read is a label at all, `checkRecord` what is
wrong with a record.
-/

namespace ArchiveLabels

open Label

/-! ## Labels -/

namespace Label.Tree

/-- What is wrong with the form of a modern label. -/
def modernFault? (t : Tree) : Option String :=
  if !("Product_".toList.isPrefixOf (t.name 0).toList) then
    some ("Root element '" ++ t.name 0 ++ "' is not a product.")
  else if (Policy.identificationArea.selectAll t).isEmpty then
    some "Missing 'Identification_Area' element."
  else none

/-- What is wrong with the form of a legacy label : its first statement, one header apart, has to
name the version of the format. -/
def legacyFault? (t : Tree) : Option String :=
  match (t.children 0).find? fun i => t.value i ≠ "SFDU_LABEL" with
  | none => some "Label has no statements."
  | some i =>
    if t.name i = "PDS_VERSION_ID" then none
    else some ("Expected 'PDS_VERSION_ID' as the first statement, found '" ++ t.name i ++ "'.")

/-- Why a tree is that of no label, if it is not. -/
def structuralProblem? (t : Tree) (source : String) : Option Problem :=
  (match t.dialect with
    | .modern => t.modernFault?
    | .legacy => t.legacyFault?).map fun message => t.problemAt 0 .invalidLabel message source

end Label.Tree

/-! ## Records -/

/-- The characters that may not stand in an identifier. -/
def illegalCharacters : List Char :=
  ['%', '/', '\\', '?', '#', '"', '&', '<', '>', '[', ']', '^', '\x60', '\x7b', '|', '\x7d', '~']

/-- What an identifier may not end with, in letters of either case. -/
def illegalSuffixes : List String := [".xml", ".json"]

/-- The longest title that passes, in characters. -/
def titleLimit : Nat := 255

namespace Record

/-- The required fields that the record does not have. -/
def missingFields (r : Record) (p : Policy) : List Problem :=
  ((p.requiredFor r.objectType).filter fun f => !r.hasField f).map fun f =>
    .ofKind .missingRequiredField ("Missing required field '" ++ f ++ "'.") r.source

/-- An illegal character in the identifier. -/
def illegalCharacter? (r : Record) : Option Problem := do
  let i ← r.identifier
  let c ← i.lid.toList.find? illegalCharacters.contains
  return .ofKind .illegalIdentifier
    ("Logical identifier '" ++ i.lid ++ "' contains the illegal character '" ++ c.toString ++ "'.")
    r.source

/-- An illegal end of the identifier. -/
def illegalSuffix? (r : Record) : Option Problem := do
  let i ← r.identifier
  let s ← illegalSuffixes.find? fun s => s.toList.isSuffixOf (Text.lower i.lid).toList
  return .ofKind .illegalIdentifier
    ("Logical identifier '" ++ i.lid ++ "' ends with '" ++ s ++ "'.") r.source

/-- A title that is too long. -/
def longTitle? (r : Record) : Option Problem := do
  let title ← r.title
  if title.length > titleLimit then
    return .ofKind .titleTooLong
      ("Title is " ++ toString title.length ++ " characters long; the limit is " ++
        toString titleLimit ++ ".") r.source
  else none

/-- A record that refers to no product. -/
def noAssociations? (r : Record) : Option Problem :=
  if r.references.isEmpty then
    some (.ofKind .noAssociations "No associations found." r.source)
  else none

/-- All that is wrong with a record. -/
def check (r : Record) (p : Policy) : List Problem :=
  r.missingFields p ++ r.illegalCharacter?.toList ++ r.illegalSuffix?.toList ++
    r.longTitle?.toList ++ r.noAssociations?.toList

end Record

end ArchiveLabels
