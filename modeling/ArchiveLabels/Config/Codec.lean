import ArchiveLabels.Config.Basic
import ArchiveLabels.Json.Decode
import ArchiveLabels.Record.Codec

/-!
# Settings as JSON values

`Config.toJson` writes every setting, `Config.ofJson?` reads settings, each of which may be left
out. Settings that nothing asks for are ignored.
-/

namespace ArchiveLabels

open Json (optional? required?)

namespace Path

/-- Reads a path. -/
def ofJson? (j : Json) : Option Path := j.string?.map Path.mk

/-- The path as a JSON value. -/
def toJson (p : Path) : Json := .str p.text

end Path

/-- A table as a JSON value. -/
def Table.toJson (t : Table String String) : Json :=
  .obj (t.map fun (k, v) => (k, .str v))

namespace CrawlSettings

/-- The settings as a JSON value. -/
def toJson (c : CrawlSettings) : Json :=
  .obj [("roots", .arr (c.roots.map Path.toJson)),
    ("legacy_roots", .arr (c.legacyRoots.map Path.toJson)),
    ("collections", .arr (c.collections.map Path.toJson)),
    ("file_filter",
      .obj [("include", .strings c.includedFiles), ("exclude", .strings c.excludedFiles)]),
    ("directory_filter", .obj [("exclude", .strings c.excludedDirectories)]),
    ("persist", .bool c.persist),
    ("checkpoint_path", (c.checkpointPath.map Path.toJson).getD .null)]

/-- Reads the wildcards for the names of files. -/
def filesOfJson? (j : Json) : Option (List String × List String) := do
  let fs ← j.fields? ["include", "exclude"] 0
  return (← optional? fs "include" [] (Json.list? Json.string?),
    ← optional? fs "exclude" [] (Json.list? Json.string?))

/-- Reads the wildcards for the names of directories. -/
def directoriesOfJson? (j : Json) : Option (List String) := do
  let fs ← j.fields? ["exclude"] 0
  optional? fs "exclude" [] (Json.list? Json.string?)

/-- Reads the settings. -/
def ofJson? (j : Json) : Option CrawlSettings := do
  let fs ← j.fields? ["roots", "legacy_roots", "collections", "file_filter", "directory_filter",
    "persist", "checkpoint_path"] 0
  let files ← optional? fs "file_filter" ([], []) filesOfJson?
  return {
    roots := ← optional? fs "roots" [] (Json.list? Path.ofJson?)
    legacyRoots := ← optional? fs "legacy_roots" [] (Json.list? Path.ofJson?)
    collections := ← optional? fs "collections" [] (Json.list? Path.ofJson?)
    includedFiles := files.1
    excludedFiles := files.2
    excludedDirectories := ← optional? fs "directory_filter" [] directoriesOfJson?
    persist := ← optional? fs "persist" false Json.bool?
    checkpointPath := ← optional? fs "checkpoint_path" none (Json.nullable? Path.ofJson?) }

end CrawlSettings

namespace RuleSettings

/-- The rule as a JSON value. -/
def toJson (r : RuleSettings) : Json :=
  .obj [("path", .str r.path), ("name", Json.ofString? r.name),
    ("unit_attribute", Json.ofString? r.unitAttribute)]

/-- Reads a rule. -/
def ofJson? (j : Json) : Option RuleSettings := do
  let fs ← j.fields? ["path", "name", "unit_attribute"] 1
  return ⟨← required? fs "path" Json.string?,
    ← optional? fs "name" none (Json.nullable? Json.string?),
    ← optional? fs "unit_attribute" none (Json.nullable? Json.string?)⟩

end RuleSettings

namespace ObjectTypeSettings

/-- The kind of product as a JSON value. -/
def toJson (t : ObjectTypeSettings) : Json :=
  .obj [("name", .str t.name), ("rules", .arr (t.rules.map RuleSettings.toJson))]

/-- Reads a kind of product. -/
def ofJson? (j : Json) : Option ObjectTypeSettings := do
  let fs ← j.fields? ["name", "rules"] 1
  return ⟨← required? fs "name" Json.string?,
    ← optional? fs "rules" [] (Json.list? RuleSettings.ofJson?)⟩

end ObjectTypeSettings

namespace PolicySettings

/-- The settings as a JSON value. -/
def toJson (p : PolicySettings) : Json :=
  .obj [("object_types", .arr (p.objectTypes.map ObjectTypeSettings.toJson)),
    ("required_fields", .strings p.requiredFields),
    ("reference_types", Table.toJson p.referenceTypes),
    ("non_primary_members", .strings p.nonPrimaryMembers),
    ("namespaces", Table.toJson p.namespaces)]

/-- Reads the settings. -/
def ofJson? (j : Json) : Option PolicySettings := do
  let d := Config.default.policy
  let fs ← j.fields? ["object_types", "required_fields", "reference_types", "non_primary_members",
    "namespaces"] 0
  return {
    objectTypes :=
      ← optional? fs "object_types" d.objectTypes (Json.list? ObjectTypeSettings.ofJson?)
    requiredFields := ← optional? fs "required_fields" d.requiredFields (Json.list? Json.string?)
    referenceTypes := ← optional? fs "reference_types" d.referenceTypes Json.table?
    nonPrimaryMembers :=
      ← optional? fs "non_primary_members" d.nonPrimaryMembers (Json.list? Json.string?)
    namespaces := ← optional? fs "namespaces" d.namespaces Json.table? }

end PolicySettings

namespace LegacySettings

/-- The settings as a JSON value. -/
def toJson (l : LegacySettings) : Json :=
  .obj [("object_type", .str l.objectType), ("lid_prefix", .str l.lidPrefix),
    ("lid_keywords", .strings l.lidKeywords), ("title_keyword", .str l.titleKeyword),
    ("version", .str l.version), ("reference_keywords", Table.toJson l.referenceKeywords),
    ("required_fields", .strings l.requiredFields)]

/-- Reads the settings. -/
def ofJson? (j : Json) : Option LegacySettings := do
  let d := Config.default.legacy
  let fs ← j.fields? ["object_type", "lid_prefix", "lid_keywords", "title_keyword", "version",
    "reference_keywords", "required_fields"] 0
  return {
    objectType := ← optional? fs "object_type" d.objectType Json.string?
    lidPrefix := ← optional? fs "lid_prefix" d.lidPrefix Json.string?
    lidKeywords := ← optional? fs "lid_keywords" d.lidKeywords (Json.list? Json.string?)
    titleKeyword := ← optional? fs "title_keyword" d.titleKeyword Json.string?
    version := ← optional? fs "version" d.version Json.string?
    referenceKeywords := ← optional? fs "reference_keywords" d.referenceKeywords Json.table?
    requiredFields := ← optional? fs "required_fields" d.requiredFields (Json.list? Json.string?) }

end LegacySettings

namespace Category

/-- The category as a JSON value. -/
def toJson (c : Category) : Json :=
  .obj [("name", .str c.name), ("identifier", .str c.identifier)]

/-- Reads a category. -/
def ofJson? (j : Json) : Option Category := do
  let fs ← j.fields? ["name", "identifier"] 2
  return ⟨← required? fs "name" Json.string?, ← required? fs "identifier" Json.string?⟩

/-- Reads the settings that hold the categories. -/
def listOfJson? (j : Json) : Option (List Category) := do
  let fs ← j.fields? ["categories"] 0
  optional? fs "categories" Config.default.categories (Json.list? ofJson?)

end Category

namespace ReportSettings

/-- The settings as a JSON value. -/
def toJson (r : ReportSettings) : Json :=
  .obj [("level", .str r.level.name), ("format", .str r.format.name)]

/-- Reads the settings. -/
def ofJson? (j : Json) : Option ReportSettings := do
  let fs ← j.fields? ["level", "format"] 0
  return ⟨← optional? fs "level" .info Severity.ofJson?,
    ← optional? fs "format" .text fun j => j.word?.bind ReportFormat.ofName?⟩

end ReportSettings

namespace ChecksumSettings

/-- The settings as a JSON value. -/
def toJson (c : ChecksumSettings) : Json :=
  .obj [("manifest", (c.manifest.map Path.toJson).getD .null),
    ("base_path", (c.basePath.map Path.toJson).getD .null)]

/-- Reads the settings. -/
def ofJson? (j : Json) : Option ChecksumSettings := do
  let fs ← j.fields? ["manifest", "base_path"] 0
  return ⟨← optional? fs "manifest" none (Json.nullable? Path.ofJson?),
    ← optional? fs "base_path" none (Json.nullable? Path.ofJson?)⟩

end ChecksumSettings

namespace Config

/-- Numbers of seconds are below this bound. -/
def secondsBound : Nat := UInt64.size

/-- All settings as a JSON value. -/
def toJson (c : Config) : Json :=
  .obj [("crawl", c.crawl.toJson), ("policy", c.policy.toJson), ("legacy", c.legacy.toJson),
    ("integrity", .obj [("categories", .arr (c.categories.map Category.toJson))]),
    ("report", c.report.toJson), ("checksums", c.checksums.toJson),
    ("daemon", .obj [("interval_secs", .nat c.intervalSeconds)])]

/-- Reads the setting of the time between two crawls. -/
def intervalOfJson? (j : Json) : Option Nat := do
  let fs ← j.fields? ["interval_secs"] 0
  optional? fs "interval_secs" 0 (Json.natBelow? secondsBound)

/-- Reads settings; what is left out has its default. -/
def ofJson? (j : Json) : Option Config := do
  let d := Config.default
  let fs ← j.fields? ["crawl", "policy", "legacy", "integrity", "report", "checksums", "daemon"] 0
  return {
    crawl := ← optional? fs "crawl" d.crawl CrawlSettings.ofJson?
    policy := ← optional? fs "policy" d.policy PolicySettings.ofJson?
    legacy := ← optional? fs "legacy" d.legacy LegacySettings.ofJson?
    categories := ← optional? fs "integrity" d.categories Category.listOfJson?
    report := ← optional? fs "report" d.report ReportSettings.ofJson?
    checksums := ← optional? fs "checksums" d.checksums ChecksumSettings.ofJson?
    intervalSeconds := ← optional? fs "daemon" d.intervalSeconds intervalOfJson? }

end Config

end ArchiveLabels
