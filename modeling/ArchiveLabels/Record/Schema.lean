import ArchiveLabels.Json.Writer

/-!
# The schema of records

A JSON value that says which JSON values are records. The fields of each of its objects stand in the
order of their names.
-/

namespace ArchiveLabels.Record.Schema

/-- A type, which is that of strings, of lists or of objects. -/
def ofType (name : String) : Json := .obj [("type", .str name)]

/-- The types of a value that need not be there. -/
def orNull (name : String) : String × Json := ("type", .strings [name, "null"])

/-- A string that need not be there. -/
def stringOrNull : Json := .obj [orNull "string"]

/-- What the numbers of lines have beside their type. -/
def lineBounds : List (String × Json) := [("format", .str "uint32"), ("minimum", .nat 0)]

/-- The number of a line that need not be there. -/
def lineOrNull : Json := .obj (lineBounds ++ [orNull "integer"])

/-- The number of a line. -/
def line : Json := .obj (lineBounds ++ [("type", .str "integer")])

/-- A reference to a definition. -/
def defined (name : String) : Json := .obj [("$ref", .str ("#/$defs/" ++ name))]

/-- A list that is empty by default. -/
def listOf (item : Json) : Json :=
  .obj [("default", .arr []), ("items", item), ("type", .str "array")]

/-- An object. -/
def object (description : String) (properties : List (String × Json)) (required : List String) :
    Json :=
  .obj [("description", .str description), ("properties", .obj properties),
    ("required", .strings required), ("type", .str "object")]

/-- Identifiers. -/
def identifier : Json :=
  object "A LID with an optional version."
    [("lid", ofType "string"), ("version", stringOrNull)] ["lid"]

/-- References. -/
def reference : Json :=
  object "One typed association from the record's product to another product."
    [("line", lineOrNull), ("relationship", ofType "string"), ("source", ofType "string"),
      ("target", defined "Identifier")]
    ["target", "relationship", "source"]

/-- The lines of a slot. -/
def slotLines : Json :=
  .obj [("description",
      .str "Label line of each value, parallel to `values`. Empty when unknown."),
    ("items", line), ("type", .str "array")]

/-- Slots. -/
def slot : Json :=
  object "A named, possibly multi-valued, optionally unit-tagged attribute."
    [("lines", slotLines), ("name", ofType "string"), ("unit", stringOrNull),
      ("values", .obj [("items", ofType "string"), ("type", .str "array")])]
    ["name", "values"]

/-- The name of the language that the schema is written in. -/
def dialect : String := "https:" ++ "//json-schema.org/draft/2020-12/schema"

/-- What records are for. -/
def description : String :=
  "Structured metadata extracted from one label.\n\n" ++
  "Immutable once produced: downstream consumers and the integrity checker\n" ++
  "only ever borrow it."

/-- The path of the label of a record. -/
def source : Json :=
  .obj [("description", .str "Path of the label the record was extracted from."),
    ("type", .str "string")]

/-- The fields of records. -/
def properties : List (String × Json) :=
  [("data_classes", listOf (ofType "string")),
    ("identifier", .obj [("anyOf", .arr [defined "Identifier", ofType "null"])]),
    ("object_type", ofType "string"),
    ("references", listOf (defined "ReferenceEntry")),
    ("slots", listOf (defined "Slot")),
    ("source", source),
    ("title", stringOrNull)]

/-- The schema of records. -/
def record : Json :=
  .obj [
    ("$defs", .obj [("Identifier", identifier), ("ReferenceEntry", reference), ("Slot", slot)]),
    ("$schema", .str dialect),
    ("description", .str description),
    ("properties", .obj properties),
    ("required", .strings ["source", "object_type"]),
    ("title", .str "MetadataRecord"),
    ("type", .str "object")]

end ArchiveLabels.Record.Schema
