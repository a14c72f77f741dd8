import ArchiveLabels.Proofs.Record.Lines
import ArchiveLabels.Proofs.Report.Totals

/-!
# Reading JSON reports

`JsonReport.Line.ofJson?` reads a line of a report without knowing of the others, and
`Totals.recount` counts items that were read. What is read from a report is its header, its items
and its summary, in this order, and recounting the items gives the totals that the summary states
(`JsonReport.lines_of_report`).
-/

namespace ArchiveLabels

open Json (required? optional? list?)

/-! ## Readers -/

namespace Json

/-- The fields of an object. -/
def objectFields? : Json → Option (List (String × Json))
  | .obj fields => some fields
  | _ => none

/-- A natural number. -/
def natural? : Json → Option Nat
  | .int n => if 0 ≤ n then some n.toNat else none
  | _ => none

/-- A name with a value. -/
def pair? : Json → Option (String × String)
  | .arr [.str name, .str value] => some (name, value)
  | _ => none

theorem natural?_nat (n : Nat) : natural? (nat n) = some n := by
  simp [natural?, nat]

theorem list?_pairs (es : List (String × String)) :
    list? pair? (JsonReport.pairs es) = some es :=
  list?_arr fun _ _ => rfl

theorem isPlain_pairs (es : List (String × String)) : (JsonReport.pairs es).IsPlain := by
  refine isPlain_arr.mpr fun j hj => ?_
  obtain ⟨e, -, rfl⟩ := List.mem_map.mp hj
  simp

end Json

namespace Status

/-- The status of the given name. -/
def ofLabel? (label : String) : Option Status :=
  [pass, fail, skip].find? fun s => s.label == label

theorem ofLabel?_label (s : Status) : ofLabel? s.label = some s := by
  cases s <;> decide

end Status

theorem ProblemKind.ofName?_name (k : ProblemKind) : ofName? k.name = some k := by
  cases k <;> decide

theorem Severity.ofName?_name (s : Severity) : ofName? s.name = some s := by
  cases s <;> decide

namespace Problem

/-- Reads a problem. -/
def ofJson? (j : Json) : Option Problem := do
  let fs ← j.objectFields?
  return ⟨← required? fs "kind" ProblemKind.ofJson?, ← required? fs "severity" Severity.ofJson?,
    ← required? fs "message" Json.string?, ← required? fs "source" Json.string?,
    ← optional? fs "line" none (Json.nullable? Json.natural?),
    ← optional? fs "column" none (Json.nullable? Json.natural?)⟩

theorem ofJson?_toJson (p : Problem) : ofJson? p.toJson = some p := by
  obtain ⟨kind, severity, message, source, line, column⟩ := p
  have hnat (n : Nat) : Json.nullable? Json.natural? (.nat n) = some (some n) :=
    congrArg (Option.map some) (Json.natural?_nat n)
  rw [toJson, ofJson?]
  cases line <;> cases column <;>
    simp [Json.objectFields?, required?, optional?, List.lookup_cons, ProblemKind.ofJson?,
      Severity.ofJson?, Json.word?, Json.string?, ProblemKind.ofName?_name, Severity.ofName?_name,
      hnat]

theorem isPlain_toJson (p : Problem) : p.toJson.IsPlain := by
  obtain ⟨kind, severity, message, source, line, column⟩ := p
  cases line <;> cases column <;> simp [toJson]

end Problem

namespace Totals

/-- Reads totals. -/
def ofFields? (fs : List (String × Json)) : Option Totals := do
  return ⟨← required? fs "passed" Json.natural?, ← required? fs "failed" Json.natural?,
    ← required? fs "skipped" Json.natural?, ← required? fs "errors" Json.natural?,
    ← required? fs "warnings" Json.natural?, ← required? fs "infos" Json.natural?⟩

end Totals

namespace Statistics

/-- Reads the counts of a crawl. -/
def ofJson? (j : Json) : Option Statistics := do
  let fs ← j.objectFields?
  return ⟨← required? fs "good" Json.natural?, ← required? fs "bad" Json.natural?,
    ← required? fs "skipped" Json.natural?⟩

theorem ofJson?_toJson (s : Statistics) : ofJson? s.toJson = some s := by
  simp [ofJson?, toJson, Json.objectFields?, required?, List.lookup_cons, Json.natural?_nat]

end Statistics

namespace JsonReport

/-- What a line of a report holds. -/
inductive Line where
  | header (h : ReportHeader)
  | item (i : ReportItem)
  | summary (s : Summary)
deriving DecidableEq, Repr

namespace Line

/-- Reads what a line holds, as its type says. -/
def ofJson? (j : Json) : Option Line := do
  let fs ← j.objectFields?
  match ← required? fs "type" Json.string? with
  | "header" =>
    return .header ⟨← required? fs "configuration" (list? Json.pair?),
      ← required? fs "parameters" (list? Json.pair?)⟩
  | "item" =>
    return .item ⟨← required? fs "status" fun j => j.string?.bind Status.ofLabel?,
      ← required? fs "source" Json.string?, ← required? fs "problems" (list? Problem.ofJson?)⟩
  | "summary" =>
    return .summary ⟨← Totals.ofFields? fs, ← required? fs "crawl" Statistics.ofJson?⟩
  | _ => none

/-- Reads a line. -/
def parse? (text : String) : Option Line := (Json.parse? text).bind ofJson?

/-- The line as a JSON value. -/
def toJson : Line → Json
  | .header h => JsonReport.header h
  | .item i => JsonReport.item i
  | .summary s => JsonReport.summary s

/-- A line is read as it was written. -/
theorem ofJson?_toJson (l : Line) : ofJson? l.toJson = some l := by
  cases l with
  | header h =>
    simp [ofJson?, toJson, JsonReport.header, tagged, Json.objectFields?, required?,
      List.lookup_cons, Json.string?, Json.list?_pairs]
  | item i =>
    have hproblems : list? Problem.ofJson? (.arr (i.problems.map Problem.toJson)) =
        some i.problems :=
      Json.list?_arr fun p _ => p.ofJson?_toJson
    simp [ofJson?, toJson, JsonReport.item, tagged, Json.objectFields?, required?, List.lookup_cons,
      Json.string?, Status.ofLabel?_label, hproblems]
  | summary s =>
    simp [ofJson?, toJson, JsonReport.summary, Summary.fields, Totals.fields, Totals.ofFields?,
      tagged, Json.objectFields?, required?, List.lookup_cons, Json.string?, Json.natural?_nat,
      Statistics.ofJson?_toJson]

theorem isPlain_toJson (l : Line) : l.toJson.IsPlain := by
  cases l with
  | header h => simp [toJson, JsonReport.header, tagged, Json.isPlain_pairs]
  | item i => simp [toJson, JsonReport.item, tagged, Problem.isPlain_toJson]
  | summary s =>
    simp [toJson, JsonReport.summary, tagged, Summary.fields, Totals.fields, Statistics.toJson]

/-- Every line of a report reads back from its compact form. -/
theorem parse?_compact (l : Line) : parse? l.toJson.compact = some l := by
  rw [parse?, Json.parse?_compact l.isPlain_toJson, Option.bind_some, ofJson?_toJson]

end Line

end JsonReport

/-! ## Counting again -/

namespace Totals

/-- The totals of items as they are shown : each by its status, and the problems of those that are
not skipped by their severity. -/
def recount (items : List ReportItem) : Totals :=
  let ps := (items.filter fun i => i.status ≠ .skip).flatMap ReportItem.problems
  { passed := items.countP fun i => i.status = .pass
    failed := items.countP fun i => i.status = .fail
    skipped := items.countP fun i => i.status = .skip
    errors := ps.countP fun p => p.severity = .error
    warnings := ps.countP fun p => p.severity = .warning
    infos := ps.countP fun p => p.severity = .info }

/-- An item that is shown counts as it was assessed. -/
theorem recount_concat (level : Severity) (shown : List ReportItem) (source : String)
    (ps : List Problem) :
    recount (shown ++ [ReportItem.ofProblems level source ps]) =
      (recount shown).add (Assessment.ofProblems level ps) := by
  have hstatus : (ReportItem.ofProblems level source ps).status =
      (Assessment.ofProblems level ps).status := rfl
  have hproblems : (ReportItem.ofProblems level source ps).problems =
      Assessment.counted level ps := rfl
  cases h : (Assessment.ofProblems level ps).status <;>
    simp [recount, add, h, hstatus, hproblems, List.countP_append, List.filter_append] <;>
    exact ⟨rfl, rfl, rfl⟩

/-- The totals of a report are those of the items that it shows. -/
theorem tally_eq_recount (level : Severity) (items : List (String × List Problem)) :
    tally level (items.map Prod.snd) =
      recount (items.map fun i => ReportItem.ofProblems level i.1 i.2) := by
  induction items using List.reverseRecOn with
  | nil => rfl
  | append_singleton items i ih =>
    rw [List.map_append, List.map_append, List.map_singleton, List.map_singleton, recount_concat,
      ← ih, tally, tally, List.foldl_append]
    rfl

end Totals

/-! ## Reports -/

namespace JsonReport

/-- What the lines of a report hold. -/
def contents (r : Report) : List Line :=
  .header r.header :: r.items.map .item ++ [.summary r.summary]

/-- A report is made of its lines. -/
theorem inLines_written (r : Report) :
    Text.InLines (r.written .json) ((contents r).map fun l => l.toJson.compact) where
  text_eq := by
    simp [Report.written, contents, Line.toJson, line, List.map_map, Function.comp_def,
      String.join_cons, String.append_assoc]
  newline_not_mem l hl := by
    obtain ⟨x, -, rfl⟩ := List.mem_map.mp hl
    exact Json.newline_not_mem_compact x.isPlain_toJson

/-- A whole report reads back line by line. -/
theorem mapM_parse?_contents (r : Report) :
    ((contents r).map fun l => l.toJson.compact).mapM Line.parse? = some (contents r) := by
  refine Json.mapM_map ?_
  exact fun l _ => l.parse?_compact

/-- A JSON report agrees with its own summary. It has a line for its header, one for each item and
one for its summary, and each is read as such, in this order. An item has the source that was given,
and those of the problems that count at the level of the report. Counting the items again gives the
totals of the summary. -/
theorem lines_of_report (level : Severity) (header : ReportHeader)
    (items : List (String × List Problem)) (crawl : Statistics) :
    let r := Report.ofItems level header items crawl
    (∃ ls, Text.InLines (r.written .json) ls ∧ ls.length = items.length + 2 ∧
      ls.mapM Line.parse? = some (.header header :: r.items.map .item ++ [.summary r.summary])) ∧
    List.Forall₂ (fun given shown => shown.source = given.1 ∧
      shown.problems = given.2.filter fun p => p.severity.isWithin level) items r.items ∧
    r.summary = ⟨Totals.recount r.items, crawl⟩ := by
  intro r
  refine ⟨⟨_, inLines_written r, ?_, mapM_parse?_contents r⟩, ?_, ?_⟩
  · simp [contents, r, Report.ofItems]
  · exact List.forall₂_map_right_iff.mpr (List.forall₂_same.mpr fun _ _ => ⟨rfl, rfl⟩)
  · exact congrArg (Summary.mk · crawl) (Totals.tally_eq_recount level items)

end JsonReport

end ArchiveLabels
