import ArchiveLabels.Crawl.Crawler
import ArchiveLabels.Harvest.Error
import ArchiveLabels.Report.Writer

/-!
# Harvesters

A harvester is what the settings say, made ready : the policy is compiled and the list of checksums
is read. It is made once and serves any number of harvests.
-/

namespace ArchiveLabels

/-- What is needed for harvests. -/
structure Harvester where
  /-- The settings. -/
  config : Config
  /-- The settings file that was asked for. -/
  source : Option Path
  /-- What to take. -/
  policy : Policy
  /-- The checksums to compare with. -/
  manifest : Option Manifest
  /-- The file that records are added to. -/
  recordFile : Option Path
  /-- The file that the report is written to; by default, it is printed. -/
  reportFile : Option Path

namespace Harvester

/-- The checksums that the settings name. -/
def readManifest (fs : FileSystem) (c : ChecksumSettings) : Except HarvestError (Option Manifest) :=
  match c.manifest with
  | none => .ok none
  | some p =>
    match fs.readManifest p (c.resolvedBase?.getD ⟨""⟩) with
    | .ok m => .ok (some m)
    | .error e => .error (.checksums p e)

/-- The harvester of the given settings. -/
def prepare (fs : FileSystem) (config : Config) (source recordFile reportFile : Option Path) :
    Except HarvestError Harvester := do
  let policy ← (Policy.compile config).mapError .policy
  let manifest ← readManifest fs config.checksums
  return { config, source, policy, manifest, recordFile, reportFile }

/-- The settings for a harvest of the catalog files in one directory, and of nothing else. -/
def catalogConfig (c : Config) (directory : Path) : Config :=
  { c with
    crawl := {
      Config.default.crawl with
      legacyRoots := [directory]
      includedFiles := c.crawl.includedFiles
      excludedFiles := c.crawl.excludedFiles
      excludedDirectories := c.crawl.excludedDirectories }
    checksums := { c.checksums with manifest := none } }

/-- The harvester for the catalog files in one directory. -/
def forCatalog (fs : FileSystem) (config : Config) (source : Option Path) (directory : Path)
    (reportFile : Option Path) : Except HarvestError Harvester :=
  prepare fs (catalogConfig config directory) source none reportFile

/-- The version that reports name. -/
def version : String := "0.1.0"

/-- Paths in one line. -/
def listed (ps : List Path) : String :=
  if ps.isEmpty then "-" else String.intercalate ", " (ps.map Path.text)

/-- The header of the reports. -/
def header (h : Harvester) : ReportHeader where
  configuration := [("Version", version),
    ("Configuration File", (h.source.map Path.text).getD "(default search)")]
  parameters :=
    let c := h.config
    [("Roots", listed c.crawl.roots), ("Catalog Roots", listed c.crawl.legacyRoots),
      ("Severity Level", c.report.level.label),
      ("Incremental", if c.crawl.persist then "true" else "false")] ++
    (c.checksums.manifest.map fun p => ("Checksum Manifest", p.text)).toList

end Harvester

end ArchiveLabels
