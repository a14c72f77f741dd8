import ArchiveLabels.Config.Basic
import ArchiveLabels.Crawl.Admission
import ArchiveLabels.Crawl.Inventory
import ArchiveLabels.Crawl.Manifest
import ArchiveLabels.Crawl.Walk
import ArchiveLabels.Extraction.Checks

/-!
# Crawls

A crawl goes through the candidates of its roots in turn, screens them, and makes a record of each
that is taken. Records are handed on as they are made, and what takes them may change files that the
crawl comes to later. A crawl that fails has handed on what it made until then, and says nothing
about the times of files.
-/

namespace ArchiveLabels

open Label

/-- Where records are handed on to, given the states of type `σ` that it may be in. -/
structure Sink (σ : Type) where
  /-- Takes a record. If it cannot, a part of the record may have been taken all the same. -/
  accept : Record → σ → Except (FileError × σ) σ
  /-- The files as they are in a state. -/
  files : σ → FileSystem

/-- Keeps records, last first, while the files do not change. -/
def Sink.keeping (fs : FileSystem) : Sink (List Record) := ⟨fun r rs => .ok (r :: rs), fun _ => fs⟩

/-- What a crawl found in a file. -/
structure CrawlItem where
  /-- The file. -/
  source : String
  /-- What is wrong with it. -/
  problems : List Problem
deriving DecidableEq, Repr

/-- What a crawl found. -/
structure CrawlOutcome where
  /-- What it found in files good and bad. -/
  items : List CrawlItem
  /-- The records it made. -/
  records : List Record
  /-- The files that it did not pass over in silence. -/
  visited : List String
  /-- Their counts. -/
  statistics : Statistics
deriving DecidableEq, Repr

namespace CrawlOutcome

/-- Nothing was found. -/
def empty : CrawlOutcome := ⟨[], [], [], .zero⟩

end CrawlOutcome

/-- What is needed for a crawl. -/
structure Crawler where
  /-- What to take. -/
  policy : Policy
  /-- The roots, with the dialects of the labels to look for. -/
  targets : List (Path × Dialect)
  /-- Which names to take. -/
  filters : Filters
  /-- What to leave out. -/
  exclusions : Exclusions
  /-- The checksums to compare with. -/
  manifest : Option Manifest
  /-- Files that have not changed are passed over. -/
  incremental : Bool

/-- How far a crawl has come. -/
structure CrawlProgress (σ : Type) where
  /-- What it found. -/
  outcome : CrawlOutcome
  /-- The times of files. -/
  checkpoint : Checkpoint
  /-- Where records are handed on to. -/
  sink : σ

/-- How a crawl failed. -/
structure CrawlFailure (σ : Type) where
  /-- Why. -/
  error : CrawlError
  /-- Where records have been handed on to. -/
  sink : σ

namespace Crawler

/-- The crawler of the given settings. -/
def prepare (fs : FileSystem) (p : Policy) (c : CrawlSettings) : Except CrawlError Crawler := do
  let filters ← (Filters.ofLists c.includedFiles c.excludedFiles c.excludedDirectories).mapError
    .wildcard
  let exclusions ← fs.readExclusions c.collections
  return {
    policy := p
    targets := c.roots.map (·, .modern) ++ c.legacyRoots.map (·, .legacy)
    filters
    exclusions
    manifest := none
    incremental := c.persist }

/-- How the crawler screens candidates. -/
def screening (c : Crawler) : Screening :=
  ⟨c.policy, c.exclusions, c.incremental⟩

/-- What is found in a file whose label cannot be read. -/
def badItem (p : Path) (e : LabelError) : CrawlItem :=
  ⟨p.text, [(Problem.ofKind .parseFailure e.message p.text).atLine e.line?]⟩

/-- The problems with the checksums that a label declares. -/
def checksumProblems (c : Crawler) (cwd p : Path) (t : Tree) : List Problem :=
  match c.manifest, t.dialect with
  | some m, .modern => m.verify cwd p t.declaredFiles
  | _, _ => []

/-- What is found in a file that is taken, and the record made of it. Of a label without the parts
that every label has, none is made. -/
def process (c : Crawler) (cwd p : Path) (t : Tree) : CrawlItem × Option Record :=
  match t.structuralProblem? p.text with
  | some problem => (⟨p.text, [problem]⟩, none)
  | none =>
    let e := t.extract c.policy p.text
    (⟨p.text, e.problems ++ e.record.check c.policy ++ c.checksumProblems cwd p t⟩, some e.record)

variable {σ : Type}

/-- Goes to a candidate. -/
def visit (c : Crawler) (sink : Sink σ) (r : CrawlProgress σ) (p : Path) :
    Except (CrawlFailure σ) (CrawlProgress σ) :=
  let fs := sink.files r.sink
  let (a, checkpoint) := c.screening.screen fs p r.checkpoint
  let o := r.outcome
  let o := {
    o with
    visited := if a.isSuppressed then o.visited else o.visited ++ [p.text]
    statistics := a.count o.statistics }
  match a with
  | .good t =>
    match c.process fs.workingDirectory p t with
    | (item, none) => .ok ⟨{ o with items := o.items ++ [item] }, checkpoint, r.sink⟩
    | (item, some record) =>
      match sink.accept record r.sink with
      | .error (e, s) => .error ⟨.output e, s⟩
      | .ok s =>
        .ok ⟨{ o with items := o.items ++ [item], records := o.records ++ [record] }, checkpoint, s⟩
  | .bad e => .ok ⟨{ o with items := o.items ++ [badItem p e] }, checkpoint, r.sink⟩
  | _ => .ok ⟨o, checkpoint, r.sink⟩

/-- Goes through the candidates of a root. -/
def crawlRoot (c : Crawler) (sink : Sink σ) (r : CrawlProgress σ) (target : Path × Dialect) :
    Except (CrawlFailure σ) (CrawlProgress σ) :=
  match (sink.files r.sink).candidates c.filters target.2 target.1 with
  | .error e => .error ⟨e, r.sink⟩
  | .ok ps => ps.foldlM (c.visit sink) r

/-- Goes through the candidates of all roots, the times of files being known from before. -/
def run (c : Crawler) (sink : Sink σ) (s : σ) (checkpoint : Checkpoint) :
    Except (CrawlFailure σ) (CrawlProgress σ) :=
  c.targets.foldlM (c.crawlRoot sink) ⟨.empty, checkpoint, s⟩

end Crawler

end ArchiveLabels
