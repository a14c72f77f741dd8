import ArchiveLabels.Crawl.Crawler
import ArchiveLabels.Json.Pieces
import ArchiveLabels.Record.Codec

/-!
# The file of records

Records are written to a file while the crawl that makes them goes on, and the crawl may come to
that very file. What it finds there is what has been written so far : bytes wait until
`RecordOutput.room` of them would be exceeded, or until the crawl is over.
-/

namespace ArchiveLabels

/-- The files while records are made, and the bytes that wait to be written to the file of records.
-/
structure RecordOutput where
  /-- The files. -/
  files : FileSystem
  /-- The bytes that wait. -/
  waiting : ByteArray

namespace RecordOutput

/-- No more bytes wait at a time. -/
def room : Nat := 8192

/-- No bytes wait. -/
def start (fs : FileSystem) : RecordOutput := ⟨fs, .empty⟩

/-- Writes bytes to the file at `p`. -/
def append (p : Path) (o : RecordOutput) (bytes : ByteArray) :
    Except (FileError × RecordOutput) RecordOutput :=
  match (FileSystem.append p bytes).run o.files with
  | (.ok (), files) => .ok { o with files }
  | (.error e, files) => .error (e, { o with files })

/-- Writes the bytes that wait. -/
def flush (p : Path) (o : RecordOutput) : Except (FileError × RecordOutput) RecordOutput :=
  if o.waiting.isEmpty then .ok o
  else (o.append p o.waiting).map fun o => { o with waiting := .empty }

/-- Writes the bytes that wait if there is no room for `n` more. -/
def makeRoom (p : Path) (o : RecordOutput) (n : Nat) :
    Except (FileError × RecordOutput) RecordOutput :=
  if room < o.waiting.size + n then o.flush p else .ok o

/-- Adds bytes to those that wait. If there is no room for them, the others are written first, and
bytes that take all the room are written at once. -/
def put (p : Path) (o : RecordOutput) (bytes : ByteArray) :
    Except (FileError × RecordOutput) RecordOutput := do
  let o ← o.makeRoom p bytes.size
  if room ≤ bytes.size then o.append p bytes
  else .ok { o with waiting := o.waiting ++ bytes }

/-- The bytes of a line that holds a record, in the pieces in which they are written. -/
def linePieces (r : Record) : List ByteArray :=
  (r.toJson.pieces ++ [['\n']]).map fun cs => Text.Utf8.encode (String.ofList cs)

/-- Adds a record as a line. -/
def add (p : Path) (r : Record) (o : RecordOutput) :
    Except (FileError × RecordOutput) RecordOutput :=
  (linePieces r).foldlM (put p) o

/-- Where a crawl hands its records on to : the file at the path, if there is one. -/
def sink : Option Path → Sink RecordOutput
  | some p => ⟨add p, files⟩
  | none => ⟨fun _ o => .ok o, files⟩

theorem size_waiting_of_flush {p : Path} {o q : RecordOutput} (h : o.flush p = .ok q) :
    q.waiting.size = 0 := by
  unfold flush at h
  split at h
  · rename_i he
    obtain rfl := Except.ok.inj h
    simpa [ByteArray.isEmpty] using he
  · cases ha : o.append p o.waiting with
    | error e => simp [ha, Except.map] at h
    | ok r =>
      simp only [ha, Except.map, Except.ok.injEq] at h
      simp [← h]

end RecordOutput

end ArchiveLabels
