import ArchiveLabels.Crawl.Crawler
import ArchiveLabels.Record.Codec

/-!
# Records from one crawl to the next

A crawl that passes over files that have not changed makes no records of them. The cache keeps the
last record of each file, in a file of its own beside the checkpoint : one record on each line.
-/

namespace ArchiveLabels

/-- Records as lines of a file. -/
def Record.linesText (rs : List Record) : String :=
  String.join (rs.map fun r => r.toJson.compact ++ "\n")

/-- The last records of files. -/
structure RecordCache where
  /-- The records, in the order in which their files were first seen. -/
  records : List Record
deriving DecidableEq, Repr

namespace RecordCache

/-- No records. -/
def empty : RecordCache := ⟨[]⟩

/-- Where the cache is kept beside a checkpoint. -/
def pathFor (checkpoint : Path) : Path :=
  checkpoint.withExtension "records.jsonl"

/-- Puts a record in the place of the first one of the same file, or at the end. -/
def store (r : Record) : List Record → List Record
  | [] => [r]
  | s :: rs => if s.source = r.source then r :: rs else s :: store r rs

/-- The record of a file is still good after a crawl that found `o` : the crawl made another, or it
passed the file over and the file is still there. -/
def keeps (fs : FileSystem) (o : CrawlOutcome) (r : Record) : Bool :=
  (o.records.any fun s => s.source == r.source) ||
    (!o.visited.contains r.source && fs.has ⟨r.source⟩)

/-- The cache after a crawl. -/
def refresh (c : RecordCache) (fs : FileSystem) (o : CrawlOutcome) : RecordCache :=
  ⟨o.records.foldl (fun rs r => store r rs) (c.records.filter (keeps fs o))⟩

/-! ## Files -/

/-- The lines of a text, each with the line feed at its end; what follows on the last one is a line
if it is not empty. -/
def fileLines (text : String) : List String :=
  match (Text.pieces '\n' text.toList).reverse with
  | [] :: front => front.reverse.map String.ofList
  | ls => ls.reverse.map String.ofList

/-- The text of the file of a cache. -/
def fileText (c : RecordCache) : String := Record.linesText c.records

/-- The cache that the text of a file holds. Each line has to be a record. -/
def parse? (text : String) : Option RecordCache :=
  ((fileLines text).mapM fun l => (Json.parse? l).bind Record.ofJson?).map RecordCache.mk

/-- Writes a cache to a file. -/
def save (c : RecordCache) (p : Path) : Action CrawlError Unit := do
  (FileSystem.makeParent p).adapt fun (d, e) => .file d e
  (FileSystem.writeText p c.fileText).adapt (.file p)

end RecordCache

/-- The cache in a file; one without records if nothing is there. -/
def FileSystem.readRecordCache (fs : FileSystem) (p : Path) : Except CrawlError RecordCache :=
  if !fs.has p then .ok .empty
  else
    match fs.readText p with
    | .error e => .error (.file p e)
    | .ok text =>
      match RecordCache.parse? text with
      | some c => .ok c
      | none => .error (.malformedRecords p)

end ArchiveLabels
