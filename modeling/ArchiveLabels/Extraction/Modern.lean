import ArchiveLabels.Extraction.Basic

/-!
# Records of modern labels

The identification area says who the product is. Every association element yields one association
for each product it names, or a problem (`associations`).
-/

namespace ArchiveLabels.Extraction.Modern

open Label

/-- The kind of product that the label declares, empty if it declares none. -/
def objectType (t : Tree) : String :=
  ((Policy.identification "product_class").firstValue? t 0).getD ""

/-- The identifier that the label declares. -/
def identifier? (t : Tree) : Option Identifier :=
  ((Policy.identification "logical_identifier").firstValue? t 0).map fun lid =>
    ⟨lid, (Policy.identification "version_id").firstValue? t 0⟩

/-- The title. -/
def title? (t : Tree) : Option String :=
  (((Policy.identification "title").firstValue? t 0).map Text.singleSpaced).filter (· ≠ "")

/-! ## Associations -/

/-- The product that a child of an association element names, if it names one. -/
def target? (t : Tree) (i : Nat) : Option Identifier :=
  if t.name i = "lidvid_reference" then (Identifier.parseVersioned (t.value i)).toOption
  else if t.name i = "lid_reference" && t.value i ≠ "" then some ⟨t.value i, none⟩
  else none

/-- What is wrong with how a child of an association element names a product. -/
def malformed? (t : Tree) (source : String) (i : Nat) : Option Problem :=
  if t.name i = "lidvid_reference" then
    if (target? t i).isSome then none
    else some (t.problemAt i .malformedReference
      ("Expected a LID-VID reference, but found this: " ++ t.value i) source)
  else if t.name i = "lid_reference" && t.value i = "" then
    some (t.problemAt i .malformedReference "Found an empty 'lid_reference' element." source)
  else none

/-- The child says how the products are related. -/
def isRelationship (t : Tree) (i : Nat) : Bool :=
  t.name i == "reference_type" && t.value i ≠ ""

/-- What a relationship that a label declares is called in records. -/
def relationshipName (p : Policy) (declared : String) : String :=
  match p.mapType declared with
  | .mapped name => name
  | _ => declared

/-- The relationship that a child declares is missing from the table. -/
def unmapped? (p : Policy) (t : Tree) (source : String) (i : Nat) : Option Problem :=
  if isRelationship t i && p.mapType (t.value i) = .unmapped then
    some (t.problemAt i .unmappedReferenceType
      ("No mapping found for reference type '" ++ t.value i ++ "'.") source)
  else none

/-- The products that an association element names. -/
def targets (t : Tree) (element : Nat) : List Identifier :=
  (t.children element).filterMap (target? t)

/-- The relationship that an association element declares; the last one counts. -/
def relationship? (p : Policy) (t : Tree) (element : Nat) : Option String :=
  ((t.children element).filter (isRelationship t)).getLast?.map fun i =>
    relationshipName p (t.value i)

/-- The problems of the children of an association element. -/
def childProblems (p : Policy) (t : Tree) (source : String) (element : Nat) : List Problem :=
  (t.children element).flatMap fun i =>
    (malformed? t source i).toList ++ (unmapped? p t source i).toList

/-- What an association element lacks. -/
def lack? (p : Policy) (t : Tree) (source : String) (element : Nat) : Option Problem :=
  if (targets t element).isEmpty then
    if (t.children element).any fun i => (malformed? t source i).isSome then none
    else some (t.problemAt element .missingReferenceTarget
      "Missing one or more 'lidvid_reference' or 'lid_reference' elements." source)
  else if (relationship? p t element).isNone then
    some (t.problemAt element .missingReferenceType "Could not find 'reference_type' element."
      source)
  else none

/-- The associations of an association element : one for each product it names. -/
def elementReferences (p : Policy) (t : Tree) (source : String) (element : Nat) : List Reference :=
  match relationship? p t element with
  | none => []
  | some relationship =>
    (targets t element).map fun target =>
      ⟨target, relationship, source, some (t.pos element).line⟩

/-- The problems of an association element. -/
def elementProblems (p : Policy) (t : Tree) (source : String) (element : Nat) : List Problem :=
  childProblems p t source element ++ (lack? p t source element).toList

/-- The association elements of a label. -/
def associations (t : Tree) : List Nat :=
  Policy.associations.selectAll t

/-! ## Slots and data classes -/

/-- The slots that only labels of some kinds have. -/
def kindSlots (t : Tree) : LabelKind → List Slot
  | .bundle => (Slot.ofValues? "bundle_type" (Policy.bundleType.values t 0)).toList
  | .collection =>
    let types := Policy.collectionType.values t 0
    let page := if types.contains "Document" then "Resource" else "Data"
    (Slot.ofValues? "collection_type" types).toList ++ (Slot.ofValues? "page_type" [page]).toList
  | _ => []

/-- The slots that rules fill, then those of the kind of label. -/
def slots (p : Policy) (t : Tree) : List Slot :=
  let type := objectType t
  (if p.recognizes type then (p.rulesFor type).filterMap fun r => r.slot? t else []) ++
    kindSlots t (.classify .modern type)

/-- The elements of observation areas that describe data, those of all areas in turn. -/
def areaClasses (t : Tree) : List String :=
  (t.all.filter fun i => t.name i == "File_Area_Observational").flatMap fun i =>
    ((t.children i).map t.name).filter (· ≠ "File")

/-- The elements of a context product that say what it is about. -/
def contextClasses (t : Tree) : List String :=
  if t.name 0 = "Product_Context" then
    ((t.children 0).map t.name).filter fun n =>
      !(["Identification_Area", "Reference_List", "Discipline_Area"].contains n)
  else []

/-- The data classes of a label, each once. -/
def dataClasses (t : Tree) : List String :=
  (areaClasses t ++ contextClasses t).eraseDups

/-- The record of a modern label. -/
def record (p : Policy) (t : Tree) (source : String) : Record where
  source := source
  identifier := identifier? t
  title := title? t
  objectType := objectType t
  dataClasses := dataClasses t
  references := (associations t).flatMap (elementReferences p t source)
  slots := slots p t

/-- The problems of a modern label. -/
def problems (p : Policy) (t : Tree) (source : String) : List Problem :=
  (associations t).flatMap (elementProblems p t source)

end ArchiveLabels.Extraction.Modern
