import ArchiveLabels.Json.Decode
import ArchiveLabels.Record.Basic
import ArchiveLabels.Record.Problem
import ArchiveLabels.Record.Statistics

/-!
# Records and problems as JSON values

How records are written into files and read back. What is absent and has no meaning of its own is
left out, but a record without identifier or title says so.
-/

namespace ArchiveLabels

open Json (optional? required?)

/-- Numbers of lines are below this bound. -/
def lineBound : Nat := UInt32.size

namespace Identifier

/-- The identifier as a JSON value. -/
def toJson (i : Identifier) : Json :=
  .obj (("lid", .str i.lid) :: i.version.toList.map fun v => ("version", .str v))

/-- Reads an identifier. -/
def ofJson? (j : Json) : Option Identifier := do
  let fs ← j.exactFields? ["lid", "version"] 1
  return ⟨← required? fs "lid" Json.string?,
    ← optional? fs "version" none (Json.nullable? Json.string?)⟩

end Identifier

namespace Severity

/-- Reads a severity. -/
def ofJson? (j : Json) : Option Severity := j.word?.bind ofName?

end Severity

namespace ProblemKind

/-- Reads a kind of problems. -/
def ofJson? (j : Json) : Option ProblemKind := j.word?.bind ofName?

end ProblemKind

namespace Problem

/-- The problem as a JSON value. -/
def toJson (p : Problem) : Json :=
  .obj ([("kind", .str p.kind.name), ("severity", .str p.severity.name),
    ("message", .str p.message),
      ("source", .str p.source)] ++
    (p.line.toList.map fun n => ("line", .nat n)) ++
    p.column.toList.map fun n => ("column", .nat n))

end Problem

namespace Reference

/-- The association as a JSON value. -/
def toJson (r : Reference) : Json :=
  .obj ([("target", r.target.toJson), ("relationship", .str r.relationship),
      ("source", .str r.source)] ++
    r.line.toList.map fun n => ("line", .nat n))

/-- Reads an association. -/
def ofJson? (j : Json) : Option Reference := do
  let fs ← j.exactFields? ["target", "relationship", "source", "line"] 3
  return ⟨← required? fs "target" Identifier.ofJson?, ← required? fs "relationship" Json.string?,
    ← required? fs "source" Json.string?,
    ← optional? fs "line" none (Json.nullable? (Json.natBelow? lineBound))⟩

end Reference

namespace Slot

/-- The slot as a JSON value. -/
def toJson (s : Slot) : Json :=
  .obj ([("name", .str s.name), ("values", .strings s.values)] ++
    (s.unit.toList.map fun u => ("unit", .str u)) ++
    if s.lines.isEmpty then [] else [("lines", .arr (s.lines.map .nat))])

/-- Reads a slot. -/
def ofJson? (j : Json) : Option Slot := do
  let fs ← j.exactFields? ["name", "values", "unit", "lines"] 2
  return ⟨← required? fs "name" Json.string?, ← required? fs "values" (Json.list? Json.string?),
    ← optional? fs "unit" none (Json.nullable? Json.string?),
    ← optional? fs "lines" [] (Json.list? (Json.natBelow? lineBound))⟩

end Slot

namespace Record

/-- The record as a JSON value. -/
def toJson (r : Record) : Json :=
  .obj [("source", .str r.source),
    ("identifier", (r.identifier.map Identifier.toJson).getD .null),
    ("title", Json.ofString? r.title),
    ("object_type", .str r.objectType),
    ("data_classes", .strings r.dataClasses),
    ("references", .arr (r.references.map Reference.toJson)),
    ("slots", .arr (r.slots.map Slot.toJson))]

/-- Reads a record. Only source and object type have to be there. -/
def ofJson? (j : Json) : Option Record := do
  let fs ← j.exactFields?
    ["source", "identifier", "title", "object_type", "data_classes", "references", "slots"] 4
  return {
    source := ← required? fs "source" Json.string?
    identifier := ← optional? fs "identifier" none (Json.nullable? Identifier.ofJson?)
    title := ← optional? fs "title" none (Json.nullable? Json.string?)
    objectType := ← required? fs "object_type" Json.string?
    dataClasses := ← optional? fs "data_classes" [] (Json.list? Json.string?)
    references := ← optional? fs "references" [] (Json.list? Reference.ofJson?)
    slots := ← optional? fs "slots" [] (Json.list? Slot.ofJson?) }

end Record

namespace Statistics

/-- The counts as a JSON value. -/
def toJson (s : Statistics) : Json :=
  .obj [("good", .nat s.good), ("bad", .nat s.bad), ("skipped", .nat s.skipped)]

end Statistics

end ArchiveLabels
