import ArchiveLabels.Extraction.Legacy
import ArchiveLabels.Extraction.Modern

/-!
# From labels to records

One entry point for both dialects.
-/

namespace ArchiveLabels

open Label

namespace Label.Tree

/-- The identifier of the product, if the label gives one. -/
def identifier? (t : Tree) (p : Policy) : Option Identifier :=
  match t.dialect with
  | .modern => Extraction.Modern.identifier? t
  | .legacy => Extraction.Legacy.identifier? p t

/-- The kind of product, empty if the label gives none. -/
def objectType (t : Tree) (p : Policy) : String :=
  match t.dialect with
  | .modern => Extraction.Modern.objectType t
  | .legacy => p.legacy.objectType

/-- The kind of label. -/
def kind (t : Tree) (p : Policy) : LabelKind :=
  .classify t.dialect (t.objectType p)

/-- The record of a label read from `source`, and the problems met while making it. -/
def extract (t : Tree) (p : Policy) (source : String) : Extraction :=
  match t.dialect with
  | .modern => ⟨Extraction.Modern.record p t source, Extraction.Modern.problems p t source⟩
  | .legacy => ⟨Extraction.Legacy.record p t source, []⟩

theorem source_extract (t : Tree) (p : Policy) (source : String) :
    (t.extract p source).record.source = source := by
  unfold extract
  cases t.dialect <;> rfl

end Label.Tree

/-- A data file that a label names. -/
structure DeclaredFile where
  /-- Its name. -/
  name : String
  /-- Its checksum in lower case, if the label gives it. -/
  checksum : Option String
  /-- Where the label names it. -/
  pos : Text.Position
deriving DecidableEq, Repr

namespace Label.Tree

/-- The data file that node `i` names, if it names one. -/
def declaredFile? (t : Tree) (i : Nat) : Option DeclaredFile :=
  ((t.childValue? i "file_name").filter (· ≠ "")).map fun name =>
    ⟨name, ((t.childValue? i "md5_checksum").filter (· ≠ "")).map Text.lower, t.pos i⟩

/-- The data files that a label names. -/
def declaredFiles (t : Tree) : List DeclaredFile :=
  (Policy.fileObjects.selectAll t).filterMap t.declaredFile?

end Label.Tree

end ArchiveLabels
