import ArchiveLabels.Config.Basic
import ArchiveLabels.Json.Writer
import ArchiveLabels.Record.Codec
import ArchiveLabels.Report.Totals

/-!
# Writing reports

A report is a header, its items and a summary. It is written for people, or as JSON values, one on
each line.
-/

namespace ArchiveLabels

/-- What the header of a report says : names with values. -/
structure ReportHeader where
  configuration : List (String × String)
  parameters : List (String × String)
deriving DecidableEq, Repr

/-- An item as a report shows it. -/
structure ReportItem where
  status : Status
  source : String
  /-- The problems that count. -/
  problems : List Problem
deriving DecidableEq, Repr

namespace ReportItem

/-- The item that the problems found in a source make at a level. -/
def ofProblems (level : Severity) (source : String) (ps : List Problem) : ReportItem :=
  ⟨(Assessment.ofProblems level ps).status, source, Assessment.counted level ps⟩

end ReportItem

/-! ## Reports for people -/

namespace TextReport

/-- The width of the names in the header. -/
def nameWidth : Nat := 24

/-- A text with blanks behind it up to a number of characters. -/
def padded (width : Nat) (s : String) : String :=
  s ++ String.ofList (List.replicate (width - s.length) ' ')

/-- A text of lines. -/
def ofLines (ls : List String) : String :=
  String.join (ls.map (· ++ "\n"))

/-- A line of the header. -/
def entry (e : String × String) : String :=
  "   " ++ padded nameWidth e.1 ++ e.2

/-- The header. -/
def header (h : ReportHeader) : String :=
  ofLines (["Archive Harvest Report", "", "Configuration:"] ++ h.configuration.map entry ++
    ["", "Parameters:"] ++ h.parameters.map entry ++ ["", "Validation Details:"])

/-- An item. -/
def item (i : ReportItem) : String :=
  ofLines (["", "  " ++ i.status.label ++ ": " ++ i.source] ++
    i.problems.map fun p => "      " ++ p.written)

/-- The summary. -/
def summary (s : Summary) : String :=
  let t := s.totals
  ofLines ["", "Summary:", "",
    "  " ++ toString t.validated ++ " of " ++ toString t.total ++ " validated, " ++
      toString t.skipped ++ " skipped",
    "  " ++ toString t.passed ++ " of " ++ toString t.validated ++ " passed", "",
    "  Files crawled: " ++ toString s.crawl.good ++ " good, " ++ toString s.crawl.bad ++ " bad, " ++
      toString s.crawl.skipped ++ " skipped",
    "  Problems: " ++ toString t.errors ++ " errors, " ++ toString t.warnings ++ " warnings, " ++
      toString t.infos ++ " infos", "", "End of Report"]

end TextReport

/-! ## Reports as JSON values -/

namespace Totals

/-- The counts as fields of a JSON object. -/
def fields (t : Totals) : List (String × Json) :=
  [("passed", .nat t.passed), ("failed", .nat t.failed), ("skipped", .nat t.skipped),
    ("errors", .nat t.errors), ("warnings", .nat t.warnings), ("infos", .nat t.infos)]

/-- The counts as a JSON value. -/
def toJson (t : Totals) : Json := .obj t.fields

end Totals

namespace Summary

/-- The summary as fields of a JSON object. -/
def fields (s : Summary) : List (String × Json) :=
  s.totals.fields ++ [("crawl", s.crawl.toJson)]

/-- The summary as a JSON value. -/
def toJson (s : Summary) : Json := .obj s.fields

end Summary

namespace JsonReport

/-- A value of the given type. -/
def tagged (type : String) (fields : List (String × Json)) : Json :=
  .obj (("type", .str type) :: fields)

/-- Names with values as a JSON value. -/
def pairs (es : List (String × String)) : Json :=
  .arr (es.map fun e => .arr [.str e.1, .str e.2])

/-- The header. -/
def header (h : ReportHeader) : Json :=
  tagged "header" [("configuration", pairs h.configuration), ("parameters", pairs h.parameters)]

/-- An item. -/
def item (i : ReportItem) : Json :=
  tagged "item" [("status", .str i.status.label), ("source", .str i.source),
    ("problems", .arr (i.problems.map Problem.toJson))]

/-- The summary. -/
def summary (s : Summary) : Json := tagged "summary" s.fields

/-- A line of the report. -/
def line (j : Json) : String := j.compact ++ "\n"

end JsonReport

/-! ## Reports of either format -/

/-- A report. -/
structure Report where
  header : ReportHeader
  items : List ReportItem
  summary : Summary
deriving DecidableEq, Repr

namespace Report

/-- The report on sources and the problems found in them. -/
def ofItems (level : Severity) (header : ReportHeader) (items : List (String × List Problem))
    (crawl : Statistics) : Report where
  header
  items := items.map fun i => ReportItem.ofProblems level i.1 i.2
  summary := ⟨Totals.tally level (items.map Prod.snd), crawl⟩

/-- The text of a report. -/
def written (r : Report) : ReportFormat → String
  | .text =>
    TextReport.header r.header ++ String.join (r.items.map TextReport.item) ++
      TextReport.summary r.summary
  | .json =>
    JsonReport.line (JsonReport.header r.header) ++
      String.join (r.items.map fun i => JsonReport.line (JsonReport.item i)) ++
      JsonReport.line (JsonReport.summary r.summary)

end Report

end ArchiveLabels
