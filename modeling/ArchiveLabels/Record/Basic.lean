import ArchiveLabels.Record.Identifier

/-!
# Metadata records

What is kept of a label : who it is, which products it refers to, and named attributes of any number
of values, its slots.
-/

namespace ArchiveLabels

/-- An association of a product with another. -/
structure Reference where
  /-- The other product. -/
  target : Identifier
  /-- How the two are related. -/
  relationship : String
  /-- The label the association was read from. -/
  source : String
  /-- The line it was read from, if known. -/
  line : Option Nat
deriving DecidableEq, Repr

/-- A named attribute. -/
structure Slot where
  /-- The name. -/
  name : String
  /-- The values. -/
  values : List String
  /-- The unit of the values. -/
  unit : Option String
  /-- The line of each value; empty if they are not known. -/
  lines : List Nat
deriving DecidableEq, Repr

namespace Slot

/-- A slot of values without lines; none if there are no values. -/
def ofValues? (name : String) (values : List String) : Option Slot :=
  if values.isEmpty then none else some ⟨name, values, none, []⟩

/-- A slot of values with their lines; none if there are no values. -/
def ofEntries? (name : String) (entries : List (String × Nat)) : Option Slot :=
  if entries.isEmpty then none
  else some ⟨name, entries.map Prod.fst, none, entries.map Prod.snd⟩

/-- Values with lines, as far as there are lines. -/
def zipLines : List String → List Nat → List (String × Option Nat)
  | [], _ => []
  | v :: vs, [] => (v, none) :: zipLines vs []
  | v :: vs, l :: ls => (v, some l) :: zipLines vs ls

/-- Each value with its line, if known. -/
def entries (s : Slot) : List (String × Option Nat) :=
  zipLines s.values s.lines

end Slot

/-- What is kept of a label. -/
structure Record where
  /-- The file of the label. -/
  source : String
  /-- The identifier of the product. -/
  identifier : Option Identifier
  /-- Its title. -/
  title : Option String
  /-- What kind of product it is. -/
  objectType : String
  /-- The kinds of data it holds. -/
  dataClasses : List String
  /-- The products it refers to. -/
  references : List Reference
  /-- Its attributes. -/
  slots : List Slot
deriving DecidableEq, Repr

namespace Record

/-- The first slot of the given name. -/
def slot? (r : Record) (name : String) : Option Slot :=
  r.slots.find? fun s => s.name == name

/-- The values of all slots of the given name, with their lines. -/
def slotEntries (r : Record) (name : String) : List (String × Option Nat) :=
  (r.slots.filter fun s => s.name == name).flatMap Slot.entries

/-- The values of all slots of the given name. -/
def slotValues (r : Record) (name : String) : List String :=
  (r.slotEntries name).map Prod.fst

/-- The field of the given name has a value. Four names stand for the record's own fields, any other
for a slot. -/
def hasField (r : Record) (name : String) : Bool :=
  match name with
  | "logical_identifier" => r.identifier.any fun i => i.lid ≠ ""
  | "version_id" => r.identifier.any fun i => i.version.any (· ≠ "")
  | "object_type" => r.objectType ≠ ""
  | "title" => r.title.any (· ≠ "")
  | other => (r.slot? other).isSome

end Record

end ArchiveLabels
