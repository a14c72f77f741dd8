import ArchiveLabels.Path
import ArchiveLabels.Record.Problem
import ArchiveLabels.Selector.Basic
import ArchiveLabels.Table
import ArchiveLabels.Text.Fold

/-!
# Settings

Everything a user can set, with its default, and the checks that a set of settings has to pass.
-/

namespace ArchiveLabels

/-- What to crawl and what to keep between two crawls. -/
structure CrawlSettings where
  /-- Directories of modern labels. -/
  roots : List Path
  /-- Directories of legacy labels. -/
  legacyRoots : List Path
  /-- Labels of collections whose inventories say what to leave out. -/
  collections : List Path
  /-- Wildcards for the names of files to take. If there are any, `excludedFiles` has no effect. -/
  includedFiles : List String
  /-- Wildcards for the names of files to leave out. -/
  excludedFiles : List String
  /-- Wildcards for the names of directories to leave out. -/
  excludedDirectories : List String
  /-- Leave out files that have not changed since the last crawl. -/
  persist : Bool
  /-- Where to keep the times of files between two runs. -/
  checkpointPath : Option Path
deriving DecidableEq, Repr

/-- How to fill a slot. -/
structure RuleSettings where
  /-- The selector of the values. -/
  path : String
  /-- The name of the slot; by default that of the first element selected. -/
  name : Option String
  /-- The attribute that holds the unit. -/
  unitAttribute : Option String
deriving DecidableEq, Repr

/-- A kind of product that is taken, and its rules. -/
structure ObjectTypeSettings where
  /-- The name of the kind. -/
  name : String
  /-- How to fill its slots. -/
  rules : List RuleSettings
deriving DecidableEq, Repr

/-- What to take and what to make of it. -/
structure PolicySettings where
  /-- The kinds of product that are taken. -/
  objectTypes : List ObjectTypeSettings
  /-- The fields that every record has to have. -/
  requiredFields : List String
  /-- What to call the relationships that labels declare; empty to keep their names. -/
  referenceTypes : Table String String
  /-- Identifiers of products that are not taken. -/
  nonPrimaryMembers : List String
  /-- The prefixes that selectors may use. -/
  namespaces : Table String String
deriving DecidableEq, Repr

/-- What to make of legacy labels. -/
structure LegacySettings where
  /-- The kind of product that all of them are. -/
  objectType : String
  /-- What the identifiers made for them start with. -/
  lidPrefix : String
  /-- The keywords whose values make up the identifier. -/
  lidKeywords : List String
  /-- The keyword of the title. -/
  titleKeyword : String
  /-- The version of the identifiers. -/
  version : String
  /-- Keywords whose values name other products, and the relationship to them. -/
  referenceKeywords : Table String String
  /-- The fields that their records have to have. -/
  requiredFields : List String
deriving DecidableEq, Repr

/-- A kind of data and the keyword by which others refer to data of this kind. -/
structure Category where
  /-- The name of the kind. -/
  name : String
  /-- The keyword. -/
  identifier : String
deriving DecidableEq, Repr

/-- How reports are written. -/
inductive ReportFormat where
  /-- For people. -/
  | text
  /-- One JSON value on each line. -/
  | json
deriving DecidableEq, Repr

namespace ReportFormat

/-- The name of a format. -/
def name : ReportFormat → String
  | text => "text"
  | json => "json"

/-- The format of the given name. -/
def ofName? (name : String) : Option ReportFormat :=
  [text, json].find? fun f => f.name == name

end ReportFormat

/-- What goes into reports. -/
structure ReportSettings where
  /-- Problems of lower severity than this are neither counted nor shown. -/
  level : Severity
  /-- How the report is written. -/
  format : ReportFormat
deriving DecidableEq, Repr

/-- The list of checksums to compare with. -/
structure ChecksumSettings where
  /-- Its file. -/
  manifest : Option Path
  /-- The directory that its paths start from. -/
  basePath : Option Path
deriving DecidableEq, Repr

namespace ChecksumSettings

/-- The directory that the paths of the list start from : by default, where the list stands. -/
def resolvedBase? (c : ChecksumSettings) : Option Path :=
  match c.basePath with
  | some base => some base
  | none => c.manifest.bind Path.parent?

end ChecksumSettings

/-- All settings. -/
structure Config where
  /-- What to crawl. -/
  crawl : CrawlSettings
  /-- What to take of it. -/
  policy : PolicySettings
  /-- What to make of legacy labels. -/
  legacy : LegacySettings
  /-- The kinds of data whose references are checked. -/
  categories : List Category
  /-- What to report. -/
  report : ReportSettings
  /-- Which checksums to compare. -/
  checksums : ChecksumSettings
  /-- Seconds from one crawl to the next; none for a single crawl. -/
  intervalSeconds : Nat
deriving DecidableEq, Repr

/-- Why settings cannot be used. -/
inductive ConfigError where
  /-- A settings file or a variable does not say what settings are. -/
  | malformed
  /-- A settings file that was asked for is not there. -/
  | missingFile (path : Path)
  /-- A setting has a value that it cannot have. -/
  | invalidValue (field : String) (reason : String)
deriving DecidableEq, Repr

namespace ConfigError

/-- The wording of an error. -/
def message : ConfigError → String
  | malformed => "Configuration error:"
  | missingFile path => "Configuration file not found: " ++ path.text
  | invalidValue field reason =>
    "Invalid configuration value for '" ++ field ++ "': " ++ reason

end ConfigError

namespace Config

/-- The settings of somebody who sets nothing. -/
def default : Config where
  crawl := ⟨[], [], [], [], [], [], false, none⟩
  policy := {
    objectTypes := []
    requiredFields := ["version_id", "logical_identifier", "object_type"]
    referenceTypes := []
    nonPrimaryMembers := []
    namespaces := [("pds", "http://pds.nasa.gov/pds4/pds/v1")] }
  legacy := {
    objectType := "Product_Proxy_PDS3"
    lidPrefix := "urn:nasa:pds:"
    lidKeywords := ["DATA_SET_ID", "PRODUCT_ID"]
    titleKeyword := "DATA_SET_NAME"
    version := "1.0"
    referenceKeywords := []
    requiredFields := ["object_type"] }
  categories := [⟨"DATA_SET", "DATA_SET_ID"⟩, ⟨"INSTRUMENT", "INSTRUMENT_ID"⟩,
    ⟨"INSTRUMENT_HOST", "INSTRUMENT_HOST_ID"⟩, ⟨"MISSION", "MISSION_NAME"⟩,
    ⟨"PERSONNEL", "PDS_USER_ID"⟩, ⟨"PERSONNEL_ELECTRONIC_MAIL", "ELECTRONIC_MAIL_ID"⟩,
    ⟨"REFERENCE", "REFERENCE_KEY_ID"⟩, ⟨"TARGET", "TARGET_NAME"⟩]
  report := ⟨.info, .text⟩
  checksums := ⟨none, none⟩
  intervalSeconds := 0

instance : Inhabited Config := ⟨default⟩

/-- There is something to crawl. -/
def hasTargets (c : Config) : Bool :=
  !c.crawl.roots.isEmpty || !c.crawl.legacyRoots.isEmpty || !c.crawl.collections.isEmpty

/-- The seconds from one crawl to the next, if there is to be a next one. -/
def interval? (c : Config) : Option Nat :=
  if c.intervalSeconds = 0 then none else some c.intervalSeconds

/-- The keyword of the category of the given name, in letters of either case. -/
def identifierFor? (c : Config) (category : String) : Option String :=
  (c.categories.find? fun k => Text.sameLetters k.name category).map Category.identifier

/-! ## Checks -/

/-- The text holds nothing but blanks. -/
def isBlankText (s : String) : Bool :=
  Text.trim s = ""

/-- The name of the setting that holds object type number `i`. -/
def objectTypeField (i : Nat) : String :=
  "policy.object_types[" ++ toString i ++ "]"

/-- The name of the setting that holds the selector of rule number `j` of object type number `i`. -/
def rulePathField (i j : Nat) : String :=
  objectTypeField i ++ ".rules[" ++ toString j ++ "].path"

/-- What is wrong with object type number `i`. -/
def objectTypeErrors (i : Nat) (t : ObjectTypeSettings) : List ConfigError :=
  (if isBlankText t.name then [.invalidValue (objectTypeField i ++ ".name") "must not be empty"]
    else []) ++
  t.rules.zipIdx.filterMap fun (r, j) =>
    if isBlankText r.path then some (.invalidValue (rulePathField i j) "must not be empty")
    else none

/-- What is wrong with category number `i`. -/
def categoryError? (i : Nat) (c : Category) : Option ConfigError :=
  if isBlankText c.name || isBlankText c.identifier then
    some (.invalidValue ("integrity.categories[" ++ toString i ++ "]")
      "name and identifier must not be empty")
  else none

/-- All that is wrong with the settings, in the order in which it is looked for. -/
def errors (c : Config) : List ConfigError :=
  (c.policy.objectTypes.zipIdx.flatMap fun (t, i) => objectTypeErrors i t) ++
  (c.categories.zipIdx.filterMap fun (k, i) => categoryError? i k) ++
  if c.legacy.lidKeywords.isEmpty then
    [.invalidValue "legacy.lid_keywords" "at least one keyword is required"]
  else []

/-- Gives the first error of the settings. -/
def validate (c : Config) : Except ConfigError Unit :=
  match c.errors with
  | [] => .ok ()
  | e :: _ => .error e

end Config

end ArchiveLabels
