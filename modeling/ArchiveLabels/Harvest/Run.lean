import ArchiveLabels.Crawl.RecordCache
import ArchiveLabels.Harvest.Attach
import ArchiveLabels.Harvest.Harvester
import ArchiveLabels.Harvest.RecordOutput
import ArchiveLabels.Integrity

/-!
# Harvests

A harvest crawls, adds the records that it makes to a file, checks all records known, and reports.
What it leaves for the next harvest is a `HarvestState`; one that fails leaves none, so that the
next one starts from the state before.
-/

namespace ArchiveLabels

/-- What a harvest leaves for the next one. -/
structure HarvestState where
  /-- The times of files. -/
  checkpoint : Checkpoint
  /-- The last record of each file. -/
  cache : RecordCache

namespace HarvestState

/-- What the first harvest starts from. -/
def empty : HarvestState := ⟨.empty, .empty⟩

end HarvestState

namespace Harvester

/-! ## State between runs -/

/-- The state that was written to files, if the settings name one. -/
def loadState (h : Harvester) (fs : FileSystem) : Except HarvestError HarvestState :=
  match h.config.crawl.checkpointPath with
  | none => .ok .empty
  | some p => do
    let checkpoint ← (fs.readCheckpoint p).mapError .loadCheckpoint
    let cache ← (fs.readRecordCache (RecordCache.pathFor p)).mapError .loadRecords
    return ⟨checkpoint, cache⟩

/-- Writes the state to files, if the settings name one. -/
def saveState (h : Harvester) (s : HarvestState) : Action HarvestError Unit :=
  match h.config.crawl.checkpointPath with
  | none => pure ()
  | some p => do
    (s.checkpoint.save p).adapt .saveCheckpoint
    (s.cache.save (RecordCache.pathFor p)).adapt .saveRecords

/-! ## Records -/

/-- Makes the file for the records, unless it is there. -/
def openRecords (h : Harvester) : Action HarvestError Unit :=
  match h.recordFile with
  | none => pure ()
  | some p => do
    (FileSystem.makeParent p).adapt fun (d, e) => .recordDirectory d e
    (FileSystem.openFile p).adapt (.recordFile p)

/-- Leaves the files as they are when records have been made, and writes what waits to be written.
-/
def closeRecords (h : Harvester) (o : RecordOutput) : Action HarvestError Unit := do
  set o.files
  match h.recordFile with
  | none => pure ()
  | some p =>
    match o.flush p with
    | .ok o => set o.files
    | .error (e, o) => do
      set o.files
      throw (.flushRecords e)

/-! ## Reports -/

/-- Writes the report to its file, or prints it. -/
def writeReport (h : Harvester) (r : Report) : Action HarvestError Unit :=
  let text := r.written h.config.report.format
  match h.reportFile with
  | none => FileSystem.print text
  | some p => do
    (FileSystem.makeParent p).adapt fun (_, e) => .report p e
    (FileSystem.create p).adapt (.report p)
    (FileSystem.append p (Text.Utf8.encode text)).adapt .writeReport

/-- The report on the items of a crawl. -/
def report (h : Harvester) (items : List CrawlItem) (statistics : Statistics) : Report :=
  Report.ofItems h.config.report.level h.header (items.map fun i => (i.source, i.problems))
    statistics

/-! ## Harvests -/

/-- Crawls. The records made until a failure are written to their file all the same, as far as that
goes. -/
def crawl (h : Harvester) (s : HarvestState) :
    Action HarvestError (CrawlProgress RecordOutput) := do
  let crawler ← ((Crawler.prepare (← get) h.policy h.config.crawl).mapError .prepare :
    Except HarvestError Crawler)
  let crawler := { crawler with manifest := h.manifest }
  h.openRecords
  match crawler.run (RecordOutput.sink h.recordFile) (.start (← get)) s.checkpoint with
  | .error e =>
    tryCatch (h.closeRecords e.sink) fun _ => pure ()
    throw (.crawl e.error)
  | .ok r =>
    h.closeRecords r.sink
    return r

/-- The records known after a crawl : an incremental one leaves out files that have not changed, so
that their records are those of before. -/
def refreshed (h : Harvester) (fs : FileSystem) (s : HarvestState) (o : CrawlOutcome) :
    RecordCache :=
  (if h.config.crawl.persist then s.cache else .empty).refresh fs o

/-- Harvests once, from the state that the last harvest left. -/
def harvest (h : Harvester) (s : HarvestState) : Action HarvestError (Summary × HarvestState) := do
  let r ← h.crawl s
  let cache := h.refreshed (← get) s r.outcome
  let integrity := Integrity.check h.config.categories cache.records
  let report := h.report (CrawlItem.attach r.outcome.items integrity.problems) r.outcome.statistics
  h.writeReport report
  let next : HarvestState := ⟨r.checkpoint, cache⟩
  h.saveState next
  return (report.summary, next)

end Harvester

end ArchiveLabels
