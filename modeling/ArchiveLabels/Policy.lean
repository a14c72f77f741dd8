import ArchiveLabels.Config.Basic
import ArchiveLabels.Record.Identifier
import ArchiveLabels.Selector.Reader

/-!
# The policy of a crawl

Settings with all selectors and identifiers read : which products are taken, which are not, and what
is made of them. `Policy.compile` refuses settings with a malformed selector or identifier.
-/

namespace ArchiveLabels

/-- How to fill a slot. -/
structure Rule where
  /-- Picks the elements that hold the values. -/
  selector : Selector
  /-- The name of the slot; by default that of the first element picked. -/
  name : Option String
  /-- The attribute that holds the unit. -/
  unitAttribute : Option String
deriving DecidableEq, Repr

/-- A kind of product that is taken. -/
structure ObjectType where
  /-- The name of the kind. -/
  name : String
  /-- How to fill its slots. -/
  rules : List Rule
deriving DecidableEq, Repr

/-- What a relationship that a label declares is called. -/
inductive TypeMapping where
  /-- There is no table, the name is kept. -/
  | unconfigured
  /-- The table gives another name. -/
  | mapped (name : String)
  /-- The table does not have the name. -/
  | unmapped
deriving DecidableEq, Repr

/-- What is taken and what is made of it. -/
structure Policy where
  /-- The kinds of product that are taken. -/
  objectTypes : List ObjectType
  /-- The fields that records have to have, those of legacy labels apart. -/
  requiredFields : List String
  /-- Names for the relationships that labels declare. -/
  referenceTypes : Option (Table String String)
  /-- Products that are not taken. -/
  nonPrimaryMembers : List Identifier
  /-- The prefixes that selectors may use. -/
  namespaces : Table String String
  /-- What is made of legacy labels. -/
  legacy : LegacySettings
  /-- The keywords of legacy labels that become slots so that references can be checked. -/
  slotKeywords : List String
deriving DecidableEq, Repr

namespace Policy

/-- Reads the rules `rules` of object type number `i`, the first of which has number `j`. -/
def compileRules (namespaces : Table String String) (i : Nat) :
    Nat → List RuleSettings → Except ConfigError (List Rule)
  | _, [] => .ok []
  | j, r :: rs =>
    match Selector.parse namespaces r.path with
    | .error e => .error (.invalidValue (Config.rulePathField i j) e.message)
    | .ok selector =>
      match compileRules namespaces i (j + 1) rs with
      | .error e => .error e
      | .ok rules => .ok (⟨selector, r.name, r.unitAttribute⟩ :: rules)

/-- Reads object types, the first of which has number `i`. -/
def compileTypes (namespaces : Table String String) :
    Nat → List ObjectTypeSettings → Except ConfigError (List ObjectType)
  | _, [] => .ok []
  | i, t :: ts =>
    match compileRules namespaces i 0 t.rules with
    | .error e => .error e
    | .ok rules =>
      match compileTypes namespaces (i + 1) ts with
      | .error e => .error e
      | .ok types => .ok (⟨t.name, rules⟩ :: types)

/-- Reads identifiers, the first of which has number `i`. -/
def compileMembers : Nat → List String → Except ConfigError (List Identifier)
  | _, [] => .ok []
  | i, token :: tokens =>
    match Identifier.parse token with
    | .error e =>
      .error (.invalidValue ("policy.non_primary_members[" ++ toString i ++ "]") e.message)
    | .ok id =>
      match compileMembers (i + 1) tokens with
      | .error e => .error e
      | .ok ids => .ok (id :: ids)

/-- Reads the selectors and identifiers of the settings. -/
def compile (c : Config) : Except ConfigError Policy := do
  let objectTypes ← compileTypes c.policy.namespaces 0 c.policy.objectTypes
  let nonPrimaryMembers ← compileMembers 0 c.policy.nonPrimaryMembers
  return {
    objectTypes := objectTypes
    requiredFields := c.policy.requiredFields
    referenceTypes := if c.policy.referenceTypes.isEmpty then none else some c.policy.referenceTypes
    nonPrimaryMembers := nonPrimaryMembers
    namespaces := c.policy.namespaces
    legacy := c.legacy
    slotKeywords := (c.categories.map Category.identifier).eraseDups }

/-- Products of the given kind are taken. -/
def recognizes (p : Policy) (objectType : String) : Bool :=
  objectType ≠ "" &&
    (objectType == p.legacy.objectType || p.objectTypes.any fun t => t.name == objectType)

/-- How to fill the slots of products of the given kind. -/
def rulesFor (p : Policy) (objectType : String) : List Rule :=
  ((p.objectTypes.find? fun t => t.name == objectType).map ObjectType.rules).getD []

/-- The fields that records of the given kind have to have. -/
def requiredFor (p : Policy) (objectType : String) : List String :=
  if objectType = p.legacy.objectType then p.legacy.requiredFields else p.requiredFields

/-- What a relationship that a label declares is called. -/
def mapType (p : Policy) (declared : String) : TypeMapping :=
  match p.referenceTypes with
  | none => .unconfigured
  | some table =>
    match table.lookup declared with
    | some name => .mapped name
    | none => .unmapped

/-! ## What every modern label is searched for -/

/-- The step to the children of a name. -/
def childStep (pattern : String) : Step := .down .child ⟨none, pattern⟩ none

/-- The step to the nodes below of a name. -/
def descendantStep (pattern : String) : Step := .down .descendant ⟨none, pattern⟩ none

/-- The areas that say what the product of a label is. -/
def identificationArea : Selector :=
  ⟨"/*/Identification_Area*", [⟨true, [childStep "*", childStep "Identification_Area*"]⟩]⟩

/-- An element of the identification areas, at any depth. -/
def identification (name : String) : Selector :=
  ⟨"//Identification_Area*/" ++ name,
    [⟨true, [descendantStep "Identification_Area*", childStep name]⟩]⟩

/-- The elements that name other products. -/
def associations : Selector :=
  ⟨"//*Member_Entry | //Internal_Reference | //Source_Product_Internal",
    [⟨true, [descendantStep "*Member_Entry"]⟩, ⟨true, [descendantStep "Internal_Reference"]⟩,
      ⟨true, [descendantStep "Source_Product_Internal"]⟩]⟩

/-- The elements that name data files. -/
def fileObjects : Selector :=
  ⟨"//File_Area*/File | //Document_File",
    [⟨true, [descendantStep "File_Area*", childStep "File"]⟩,
      ⟨true, [descendantStep "Document_File"]⟩]⟩

/-- The types of a bundle. -/
def bundleType : Selector :=
  ⟨"//Bundle/bundle_type", [⟨true, [descendantStep "Bundle", childStep "bundle_type"]⟩]⟩

/-- The types of a collection. -/
def collectionType : Selector :=
  ⟨"//Collection/collection_type",
    [⟨true, [descendantStep "Collection", childStep "collection_type"]⟩]⟩

end Policy

end ArchiveLabels
