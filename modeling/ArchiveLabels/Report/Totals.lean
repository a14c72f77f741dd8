import ArchiveLabels.Record.Problem
import ArchiveLabels.Record.Statistics

/-!
# What reports count

Each item of a report has a status, which its problems decide : a label that is none is skipped,
else errors make it fail. Problems of lower severity than the level of the report do not count.
-/

namespace ArchiveLabels

/-- What becomes of an item. -/
inductive Status where
  | pass
  | fail
  | skip
deriving DecidableEq, Repr

namespace Status

/-- The name of a status in reports. -/
def label : Status → String
  | pass => "PASS"
  | fail => "FAIL"
  | skip => "SKIP"

end Status

/-- The status of an item, and how many of its problems count. -/
structure Assessment where
  status : Status
  errors : Nat
  warnings : Nat
  infos : Nat
deriving DecidableEq, Repr

namespace Assessment

/-- The problems that count at a level. -/
def counted (level : Severity) (ps : List Problem) : List Problem :=
  ps.filter fun p => p.severity.isWithin level

/-- How many problems of the given severity there are. -/
def countOf (s : Severity) (ps : List Problem) : Nat :=
  ps.countP fun p => p.severity = s

/-- What the problems of an item make of it at a level. -/
def ofProblems (level : Severity) (ps : List Problem) : Assessment :=
  let cs := counted level ps
  let errors := countOf .error cs
  { status :=
      if ps.any Problem.isStructural then .skip else if 0 < errors then .fail else .pass
    errors
    warnings := countOf .warning cs
    infos := countOf .info cs }

end Assessment

/-- The counts of a report. -/
structure Totals where
  /-- Items that pass. -/
  passed : Nat
  /-- Items that fail. -/
  failed : Nat
  /-- Items that are skipped. -/
  skipped : Nat
  /-- Errors of items that are not skipped. -/
  errors : Nat
  /-- Warnings of items that are not skipped. -/
  warnings : Nat
  /-- Remarks on items that are not skipped. -/
  infos : Nat
deriving DecidableEq, Repr

namespace Totals

/-- The counts of a report without items. -/
def zero : Totals := ⟨0, 0, 0, 0, 0, 0⟩

/-- One item more. -/
def add (t : Totals) (a : Assessment) : Totals :=
  match a.status with
  | .skip => { t with skipped := t.skipped + 1 }
  | .fail => ⟨t.passed, t.failed + 1, t.skipped, t.errors + a.errors, t.warnings + a.warnings,
      t.infos + a.infos⟩
  | .pass => ⟨t.passed + 1, t.failed, t.skipped, t.errors + a.errors, t.warnings + a.warnings,
      t.infos + a.infos⟩

/-- The counts of items, given their problems. -/
def tally (level : Severity) (items : List (List Problem)) : Totals :=
  items.foldl (fun t ps => t.add (Assessment.ofProblems level ps)) zero

/-- The number of items that are not skipped. -/
def validated (t : Totals) : Nat := t.passed + t.failed

/-- The number of items. -/
def total (t : Totals) : Nat := t.validated + t.skipped

end Totals

/-- The end of a report. -/
structure Summary where
  /-- The counts of the report. -/
  totals : Totals
  /-- The counts of the crawl that it is about. -/
  crawl : Statistics
deriving DecidableEq, Repr

end ArchiveLabels
