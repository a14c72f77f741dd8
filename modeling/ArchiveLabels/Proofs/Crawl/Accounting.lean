import ArchiveLabels.Proofs.Crawl.Once
import ArchiveLabels.Proofs.Extraction.Structural

/-!
# The books of a crawl

A crawl keeps its statistics, the list of visited files, the items, the records and the sink side by
side. `Crawler.Booked` says what one stop adds to each of them, and `Crawler.booked` that every stop
is booked so; the totals follow by going through the stops. `Crawler.accounts_of_run` puts together
what the books of a successful crawl say.
-/

namespace ArchiveLabels

open Label

namespace Crawler

variable {σ : Type} {c : Crawler}

/-- What the books of a crawl say of one stop : of a label taken there is an item, and a record if
none of the item's problems is structural; of a label that cannot be read there is an item with this
one problem; of a file that is not taken there is nothing but the visit, and of one passed over in
silence nothing at all. -/
def Booked (c : Crawler) (x : Stop) : Prop :=
  match c.admission x with
  | .good _ =>
    c.visited? x = some x.path.text ∧
      ∃ problems, c.item? x = some ⟨x.path.text, problems⟩ ∧
        ((c.record? x).isSome ↔ ∀ p ∈ problems, p.isStructural = false) ∧
        ∀ r, c.record? x = some r → r.source = x.path.text
  | .bad _ =>
    c.visited? x = some x.path.text ∧
      (∃ p, c.item? x = some ⟨x.path.text, [p]⟩ ∧ p.kind = .parseFailure) ∧ c.record? x = none
  | .skipped _ => c.visited? x = some x.path.text ∧ c.item? x = none ∧ c.record? x = none
  | .unchanged => c.visited? x = none ∧ c.item? x = none ∧ c.record? x = none
  | .claimed => c.visited? x = none ∧ c.item? x = none ∧ c.record? x = none

theorem source_process (c : Crawler) (cwd p : Path) (t : Tree) :
    (c.process cwd p t).1.source = p.text := by
  unfold process
  split <;> rfl

/-- A record is handed on exactly when no problem of the label is structural. -/
theorem isSome_process_iff (c : Crawler) (cwd p : Path) (t : Tree) :
    (c.process cwd p t).2.isSome ↔
      ∀ q ∈ (c.process cwd p t).1.problems, q.isStructural = false := by
  cases hs : t.structuralProblem? p.text with
  | none =>
    have hr : (c.process cwd p t).2.isSome = true := by simp [process, hs]
    exact ⟨fun _ q hq => not_isStructural_of_mem_process hs hq, fun _ => hr⟩
  | some q => simp [process, hs, Tree.isStructural_of_structuralProblem? hs]

theorem source_of_process {cwd p : Path} {t : Tree} {r : Record}
    (h : (c.process cwd p t).2 = some r) : r.source = p.text := by
  unfold process at h
  split at h
  · cases h
  · obtain rfl := Option.some.inj h
    exact Tree.source_extract t c.policy p.text

/-- Items are named by the path of their stop. -/
theorem source_of_item? {x : Stop} {item : CrawlItem} (h : c.item? x = some item) :
    item.source = x.path.text := by
  unfold item? at h
  split at h
  · obtain rfl := Option.some.inj h
    exact source_process c _ _ _
  · obtain rfl := Option.some.inj h
    rfl
  · cases h

/-- Records are named by the path of their stop. -/
theorem source_of_record? {x : Stop} {r : Record} (h : c.record? x = some r) :
    r.source = x.path.text := by
  unfold record? at h
  split at h
  · exact source_of_process h
  · cases h

/-- Every stop is booked as its admission says. -/
theorem booked (c : Crawler) (x : Stop) : c.Booked x := by
  unfold Booked
  split
  · rename_i t ha
    simp only [visited?, item?, record?, ha]
    refine ⟨rfl, (c.process x.files.workingDirectory x.path t).1.problems, ?_, ?_, ?_⟩
    · rw [← source_process c x.files.workingDirectory x.path t]
    · exact isSome_process_iff c _ _ t
    · exact fun r hr => source_of_process hr
  · rename_i e ha
    simp only [visited?, item?, record?, ha]
    exact ⟨rfl, ⟨_, rfl, rfl⟩, trivial⟩
  all_goals
    rename_i ha
    simp [visited?, item?, record?, ha, Admission.isSuppressed]

/-! ## Totals -/

/-- The outcome of stops is that of the first, and of the rest. -/
theorem outcomeOf_cons (c : Crawler) (x : Stop) (xs : List Stop) :
    c.outcomeOf (x :: xs) = (c.outcomeOf [x]).merge (c.outcomeOf xs) :=
  outcomeOf_append c [x] xs

/-- Each visited file is counted once : good, bad or skipped. -/
theorem length_visited (c : Crawler) (xs : List Stop) :
    (c.outcomeOf xs).visited.length = (c.outcomeOf xs).statistics.total := by
  induction xs with
  | nil => rfl
  | cons x xs ih =>
    rw [outcomeOf_cons]
    simp only [CrawlOutcome.merge, List.length_append, ih]
    cases ha : c.admission x <;>
      simp [outcomeOf, visited?, ha, Admission.isSuppressed, Admission.count, Statistics.total,
        Statistics.zero, Statistics.addGood, Statistics.addBad, Statistics.addSkipped] <;>
      omega

/-- There is an item for each file that is counted good or bad. -/
theorem length_items (c : Crawler) (xs : List Stop) :
    (c.outcomeOf xs).items.length =
      (c.outcomeOf xs).statistics.good + (c.outcomeOf xs).statistics.bad := by
  induction xs with
  | nil => rfl
  | cons x xs ih =>
    rw [outcomeOf_cons]
    simp only [CrawlOutcome.merge, List.length_append, ih]
    cases ha : c.admission x <;>
      simp [outcomeOf, item?, ha, Admission.count, Statistics.zero, Statistics.addGood,
        Statistics.addBad, Statistics.addSkipped] <;>
      omega

/-! ## The books of a run -/

/-- The books of a successful crawl are those of its stops, booked one by one, and agree with each
other. If the crawl passes over files that have not changed and their times stay as they are while
it runs, then no two of the visited paths have one absolute spelling. -/
theorem accounts_of_run (c : Crawler) (sink : Sink σ) (s : σ) (k : Checkpoint) (q : CrawlProgress σ)
    (h : c.run sink s k = .ok q) :
    q.outcome = c.outcomeOf (c.stops sink s k) ∧
    (∀ x ∈ c.stops sink s k, c.Booked x) ∧
    q.outcome.visited.length = q.outcome.statistics.good + q.outcome.statistics.bad +
      q.outcome.statistics.skipped ∧
    q.outcome.items.length = q.outcome.statistics.good + q.outcome.statistics.bad ∧
    sink.acceptAll q.outcome.records s = .ok q.sink ∧
    (c.incremental = true → (sink.files s).HasProperHere →
      Steady (sink.files s) (c.stops sink s k) →
      (q.outcome.visited.map fun text => (sink.files s).absolute ⟨text⟩).Nodup) := by
  have hq := outcome_of_run h
  have ha : sink.acceptAll q.outcome.records s = .ok q.sink := by
    rw [hq]
    exact (gives_of_run h).accepted
  refine ⟨hq, fun x _ => booked c x, ?_, ?_, ha, ?_⟩
  · rw [hq]
    exact length_visited c _
  · rw [hq]
    exact length_items c _
  · intro hi hh hs
    rw [hq] at ha ⊢
    exact visited_once hi hh (follows_stops c sink s k) ⟨q.sink, ha⟩ hs

/-- The label of a catalog file. -/
def missionLabel : String := "PDS_VERSION_ID = PDS3\nOBJECT = MISSION\nEND_OBJECT = MISSION\nEND\n"

/-- A catalog file in a directory. -/
def catalogFiles : FileSystem where
  root :=
    .entry "c" (.directory (.entry "a.cat" (.file (Text.Utf8.encode missionLabel) ⟨1, 0⟩) .empty))
      .empty
  here := []
  clock := .epoch
  printed := ""

/-- A crawler whose roots are two spellings of one directory. -/
def catalogCrawler : Crawler where
  policy := ⟨[], [], none, [], [], Config.default.legacy, []⟩
  targets := [(⟨"c"⟩, .legacy), (⟨"/./c/"⟩, .legacy)]
  filters := ⟨.all, .all⟩
  exclusions := .empty
  manifest := none
  incremental := true

set_option maxRecDepth 100000 in
/-- The file of two spellings is visited once. -/
theorem accounts_of_run_catalog :
    ∃ q, catalogCrawler.run (.keeping catalogFiles) [] .empty = .ok q ∧
      q.outcome.statistics = ⟨1, 0, 0⟩ ∧ q.outcome.records.length = 1 ∧
      (catalogCrawler.stops (.keeping catalogFiles) [] .empty).map Stop.path =
        [⟨"c/a.cat"⟩, ⟨"/./c/a.cat"⟩] ∧
      (q.outcome.visited.map fun text => catalogFiles.absolute ⟨text⟩).Nodup := by
  have hstats : (catalogCrawler.run (.keeping catalogFiles) [] .empty).toOption.map
      (fun q => (q.outcome.statistics, q.outcome.records.length)) = some (⟨1, 0, 0⟩, 1) := by
    decide +kernel
  have hsteady : Steady catalogFiles (catalogCrawler.stops (.keeping catalogFiles) [] .empty) := by
    have htimes : ∀ x ∈ catalogCrawler.stops (.keeping catalogFiles) [] .empty,
        x.files.here = [] ∧ x.files.modified x.path = .ok ⟨1, 0⟩ ∧
          catalogFiles.modified x.path = .ok ⟨1, 0⟩ := by
      decide +kernel
    exact ⟨fun x hx => (htimes x hx).1, fun x hx => ⟨_, (htimes x hx).2⟩⟩
  cases hq : catalogCrawler.run (.keeping catalogFiles) [] .empty with
  | error f =>
    rw [hq] at hstats
    cases hstats
  | ok q =>
    rw [hq] at hstats
    obtain ⟨h₁, h₂⟩ := Prod.mk.inj (Option.some.inj hstats)
    obtain ⟨-, -, -, -, -, hnodup⟩ :=
      accounts_of_run catalogCrawler (.keeping catalogFiles) [] .empty q hq
    have hhere : catalogFiles.HasProperHere := by simp [FileSystem.HasProperHere, catalogFiles]
    exact ⟨q, rfl, h₁, h₂, by decide +kernel, hnodup rfl hhere hsteady⟩

end Crawler

end ArchiveLabels
