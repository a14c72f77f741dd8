import ArchiveLabels.Label.Reading
import ArchiveLabels.Wildcard.Collection

/-!
# What stops a crawl

Errors of single files do not stop a crawl; these do.
-/

namespace ArchiveLabels

/-- What stops a crawl or its preparation. -/
inductive CrawlError where
  /-- A filter is no list of wildcards. -/
  | wildcard (e : WildcardError)
  /-- There is nothing at a root. -/
  | missingRoot (p : Path)
  /-- A file cannot be read or written. -/
  | file (p : Path) (e : FileError)
  /-- A file does not hold the times of files. -/
  | malformedCheckpoint (p : Path)
  /-- A line of a file is no record. -/
  | malformedRecords (p : Path)
  /-- The label of a collection cannot be read. -/
  | collectionLabel (p : Path) (e : LabelError)
  /-- The label of a collection does not say something about its table. -/
  | inventory (p : Path) (what : String)
  /-- A record cannot be handed on. -/
  | output (e : FileError)
deriving DecidableEq, Repr

namespace CrawlError

/-- The wording of an error. -/
def message : CrawlError → String
  | wildcard e => e.message
  | missingRoot p => "Crawl root does not exist: " ++ p.text
  | file p e => "Failed to access " ++ p.text ++ ": " ++ e.message
  | malformedCheckpoint p => "Malformed checkpoint " ++ p.text ++ ":"
  | malformedRecords p => "Failed to access " ++ p.text ++ ":"
  | collectionLabel p e => "Failed to read collection label " ++ p.text ++ ": " ++ e.message
  | inventory p what => "Collection label " ++ p.text ++ " has no " ++ what
  | output e => "Record output failed: " ++ e.message

/-- The wordings of what an error comes from. -/
def causes : CrawlError → List String
  | wildcard e => [e.cause]
  | file _ e => [e.message]
  | collectionLabel _ e => e.message :: e.causes
  | output e => [e.message]
  | _ => []

end CrawlError

/-- What keeps a list of checksums from being used. -/
inductive ManifestError where
  /-- Its file cannot be read. -/
  | file (p : Path) (e : FileError)
  /-- A line has no path. -/
  | missingPath (line : Nat) (content : String)
deriving DecidableEq, Repr

namespace ManifestError

/-- The wording of an error. -/
def message : ManifestError → String
  | file p e => "Failed to read checksum manifest " ++ p.text ++ ": " ++ e.message
  | missingPath line content =>
    "Missing file path on manifest line " ++ toString line ++ ": '" ++ content ++ "'"

/-- The wordings of what an error comes from. -/
def causes : ManifestError → List String
  | file _ e => [e.message]
  | missingPath _ _ => []

end ManifestError

end ArchiveLabels
