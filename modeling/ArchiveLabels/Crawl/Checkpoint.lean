import ArchiveLabels.Crawl.Error
import ArchiveLabels.Json.Decode
import ArchiveLabels.Json.Reader
import ArchiveLabels.Json.Writer
import ArchiveLabels.Time.Reader

/-!
# Checkpoints

A checkpoint keeps when files were last written, so that the next crawl can tell which have changed.
It is kept in a file as a JSON object of paths with times.
-/

namespace ArchiveLabels

/-- Times of files by their paths, in the order of the paths. -/
structure Checkpoint where
  /-- The paths with their times. -/
  entries : Table Path Timestamp
deriving DecidableEq, Repr

namespace Checkpoint

/-- No files. -/
def empty : Checkpoint := ⟨[]⟩

/-- The time of a file. -/
def get? (c : Checkpoint) (cwd p : Path) : Option Timestamp :=
  Table.get? Path.isLess (Path.absolute cwd p) c.entries

/-- Keeps the time of a file. -/
def put (c : Checkpoint) (cwd p : Path) (t : Timestamp) : Checkpoint :=
  ⟨c.entries.put Path.isLess (Path.absolute cwd p) t⟩

/-- Keeps the time of a file, and says whether it was the one kept already. -/
def observe (c : Checkpoint) (cwd p : Path) (t : Timestamp) : Checkpoint × Bool :=
  if c.get? cwd p = some t then (c, true) else (c.put cwd p t, false)

/-! ## Files -/

/-- The checkpoint as a JSON value. -/
def toJson (c : Checkpoint) : Json :=
  .obj (c.entries.map fun (p, t) => (p.text, .str t.written))

/-- Reads an entry. -/
def entryOfJson? (field : String × Json) : Option (Path × Timestamp) := do
  return (⟨field.1⟩, ← field.2.string?.bind Timestamp.parse?)

/-- Reads a checkpoint. -/
def ofJson? : Json → Option Checkpoint
  | .obj fields => (fields.mapM entryOfJson?).map fun es => ⟨Table.ofList Path.isLess es⟩
  | _ => none

/-- The text of the file of a checkpoint. -/
def fileText (c : Checkpoint) : String := c.toJson.pretty

/-- The checkpoint that the text of a file holds. -/
def parse? (text : String) : Option Checkpoint :=
  (Json.parse? text).bind ofJson?

/-- Writes a checkpoint to a file. -/
def save (c : Checkpoint) (p : Path) : Action CrawlError Unit := do
  (FileSystem.makeParent p).adapt fun (d, e) => .file d e
  (FileSystem.writeText p c.fileText).adapt (.file p)

end Checkpoint

/-- The checkpoint in a file; one without entries if there is no file. -/
def FileSystem.readCheckpoint (fs : FileSystem) (p : Path) : Except CrawlError Checkpoint :=
  match fs.readText p with
  | .error .notFound => .ok .empty
  | .error e => .error (.file p e)
  | .ok text =>
    match Checkpoint.parse? text with
    | some c => .ok c
    | none => .error (.malformedCheckpoint p)

end ArchiveLabels
