import ArchiveLabels.Text.Blank
import ArchiveLabels.Text.Cursor
import ArchiveLabels.Text.Fold

/-!
# Problems

What is found wrong with a label or a record : its kind, its severity and where it was found.
-/

namespace ArchiveLabels

open Text

/-- How grave a problem is. -/
inductive Severity where
  /-- The product is wrong. -/
  | error
  /-- The product should be looked at. -/
  | warning
  /-- A remark. -/
  | info
deriving DecidableEq, Repr

namespace Severity

/-- The place in the order of severities; the gravest has the least. -/
def rank : Severity → Nat
  | error => 1
  | warning => 2
  | info => 3

/-- At least as grave as the threshold. -/
def isWithin (s threshold : Severity) : Bool :=
  s.rank ≤ threshold.rank

/-- The name of a severity. -/
def name : Severity → String
  | error => "error"
  | warning => "warning"
  | info => "info"

/-- The name in reports. -/
def label : Severity → String
  | error => "ERROR"
  | warning => "WARNING"
  | info => "INFO"

/-- All severities, the gravest first. -/
def all : List Severity := [error, warning, info]

/-- The severity of the given name. -/
def ofName? (name : String) : Option Severity :=
  all.find? fun s => s.name == name

/-- The severity that a user means by a word. -/
def parse? (word : String) : Option Severity :=
  match lower (trim word) with
  | "error" | "severe" => some error
  | "warning" | "warn" => some warning
  | "info" => some info
  | _ => none

end Severity

/-- What went wrong. -/
inductive ProblemKind where
  /-- The text could not be read. -/
  | parseFailure
  /-- The text was read but is no label. -/
  | invalidLabel
  | missingRequiredField
  | illegalIdentifier
  | malformedReference
  | missingReferenceType
  | missingReferenceTarget
  | unmappedReferenceType
  | noAssociations
  | titleTooLong
  | unmatchedReference
  | checksumMismatch
  | checksumNotListed
deriving DecidableEq, Repr

namespace ProblemKind

/-- The severity of problems of this kind, unless another is set. -/
def severity : ProblemKind → Severity
  | parseFailure | invalidLabel | missingRequiredField | illegalIdentifier | malformedReference
  | missingReferenceType | missingReferenceTarget | unmatchedReference => .error
  | unmappedReferenceType | titleTooLong | checksumMismatch => .warning
  | noAssociations | checksumNotListed => .info

/-- The label is not taken for one, whatever else is found. -/
def isStructural (k : ProblemKind) : Bool :=
  k = invalidLabel

/-- The name of a kind. -/
def name : ProblemKind → String
  | parseFailure => "parse_failure"
  | invalidLabel => "invalid_label"
  | missingRequiredField => "missing_required_field"
  | illegalIdentifier => "illegal_identifier"
  | malformedReference => "malformed_reference"
  | missingReferenceType => "missing_reference_type"
  | missingReferenceTarget => "missing_reference_target"
  | unmappedReferenceType => "unmapped_reference_type"
  | noAssociations => "no_associations"
  | titleTooLong => "title_too_long"
  | unmatchedReference => "unmatched_reference"
  | checksumMismatch => "checksum_mismatch"
  | checksumNotListed => "checksum_not_listed"

/-- All kinds. -/
def all : List ProblemKind :=
  [parseFailure, invalidLabel, missingRequiredField, illegalIdentifier, malformedReference,
    missingReferenceType, missingReferenceTarget, unmappedReferenceType, noAssociations,
    titleTooLong, unmatchedReference, checksumMismatch, checksumNotListed]

/-- The kind of the given name. -/
def ofName? (name : String) : Option ProblemKind :=
  all.find? fun k => k.name == name

end ProblemKind

/-- A finding about one source. -/
structure Problem where
  /-- What went wrong. -/
  kind : ProblemKind
  /-- How grave it is. -/
  severity : Severity
  /-- What is said about it. -/
  message : String
  /-- The file it was found in. -/
  source : String
  /-- The line it was found in, if known. -/
  line : Option Nat
  /-- The column it was found in, if known. -/
  column : Option Nat
deriving DecidableEq, Repr

namespace Problem

/-- A problem without place and of the severity of its kind. -/
def ofKind (kind : ProblemKind) (message source : String) : Problem :=
  ⟨kind, kind.severity, message, source, none, none⟩

/-- Sets the line, or takes it away. -/
def atLine (p : Problem) (line : Option Nat) : Problem :=
  { p with line := line }

/-- Sets line and column. -/
def atPosition (p : Problem) (pos : Position) : Problem :=
  { p with line := some pos.line, column := some pos.column }

/-- Sets the severity. -/
def withSeverity (p : Problem) (severity : Severity) : Problem :=
  { p with severity := severity }

/-- The label is not taken for one. -/
def isStructural (p : Problem) : Bool :=
  p.kind.isStructural

/-- Where the problem is, as reports say it. -/
def place (p : Problem) : String :=
  match p.line, p.column with
  | some line, some column => "line " ++ toString line ++ ", " ++ toString column ++ ": "
  | some line, none => "line " ++ toString line ++ ": "
  | none, _ => ""

/-- The line of a report about the problem. -/
def written (p : Problem) : String :=
  p.severity.label ++ "  " ++ p.place ++ p.message

end Problem

end ArchiveLabels
