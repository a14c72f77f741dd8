import ArchiveLabels.Config.Basic
import ArchiveLabels.Crawl.Error

/-!
# What stops a harvest

Each error says what was being done and what went wrong with it. `HarvestError.message` puts the two
in one line, and behind them what the second one comes from.
-/

namespace ArchiveLabels

/-- What stops a harvest. -/
inductive HarvestError where
  /-- The settings cannot be used. -/
  | settings (e : ConfigError)
  /-- The settings do not make a policy. -/
  | policy (e : ConfigError)
  /-- The list of checksums that the settings name cannot be used. -/
  | checksums (p : Path) (e : ManifestError)
  /-- The list of checksums that is to be shown cannot be used. -/
  | manifest (p : Path) (e : ManifestError)
  /-- The times of files cannot be read. -/
  | loadCheckpoint (e : CrawlError)
  /-- The records of the last crawl cannot be read. -/
  | loadRecords (e : CrawlError)
  /-- The crawl cannot start. -/
  | prepare (e : CrawlError)
  /-- There is no directory for the records. -/
  | recordDirectory (p : Path) (e : FileError)
  /-- The file for the records cannot be opened. -/
  | recordFile (p : Path) (e : FileError)
  /-- The crawl fails. -/
  | crawl (e : CrawlError)
  /-- Records that wait cannot be written. -/
  | flushRecords (e : FileError)
  /-- The file for the report cannot be opened. -/
  | report (p : Path) (e : FileError)
  /-- The report cannot be written. -/
  | writeReport (e : FileError)
  /-- The times of files cannot be written. -/
  | saveCheckpoint (e : CrawlError)
  /-- The records of the crawl cannot be written. -/
  | saveRecords (e : CrawlError)
  /-- What is to be crawled is no directory. -/
  | notADirectory (p : Path)
deriving DecidableEq, Repr

namespace HarvestError

/-- What is said about an error of a crawl, with what was being done. -/
def ofCrawl (doing : String) (e : CrawlError) : List String :=
  doing :: e.message :: e.causes

/-- What is said about an error of a list of checksums, with what was being done. -/
def ofManifest (doing : String) (e : ManifestError) : List String :=
  doing :: e.message :: e.causes

/-- What is said about an error, from the outermost to its root. -/
def causes : HarvestError → List String
  | settings e => ["failed to load configuration", e.message]
  | policy e => ["invalid extraction policy", e.message]
  | checksums p e => ofManifest ("failed to read checksum manifest " ++ p.text) e
  | manifest p e => ofManifest ("failed to read manifest " ++ p.text) e
  | loadCheckpoint e => ofCrawl "failed to load crawl checkpoint" e
  | loadRecords e => ofCrawl "failed to load record cache" e
  | prepare e => ofCrawl "failed to prepare crawl" e
  | recordDirectory p e => ["failed to create " ++ p.text, e.message]
  | recordFile p e => ["failed to open record output " ++ p.text, e.message]
  | crawl e => ofCrawl "crawl failed" e
  | flushRecords e => ["failed to flush record output", e.message]
  | report p e => ["Failed to open report output " ++ p.text ++ ": " ++ e.message, e.message]
  | writeReport e => ["Report write failed: " ++ e.message, e.message]
  | saveCheckpoint e => ofCrawl "failed to save crawl checkpoint" e
  | saveRecords e => ofCrawl "failed to save record cache" e
  | notADirectory p => ["'" ++ p.text ++ "' is not a directory"]

/-- The wording of an error. -/
def message (e : HarvestError) : String :=
  String.intercalate ": " e.causes

end HarvestError

end ArchiveLabels
