import ArchiveLabels.Proofs.Crawl.Snapshot
import ArchiveLabels.Proofs.Firsts
import ArchiveLabels.Proofs.Harvest.Attach
import ArchiveLabels.Proofs.Harvest.Cycle
import ArchiveLabels.Proofs.Harvest.Failure
import ArchiveLabels.Proofs.Report.Totals

/-!
# What a harvest reports

A harvest finds problems twice : in each file that it comes to, and in all records that are known
afterwards. The two meet in the report by the name of their source only. That no problem of a record
ends up with a file of which there is no record is due to the cache, which drops the record of a file
when the file is visited (`Crawler.notMem_sources_of_record?_eq_none`).

`Harvester.reported_of_harvest` says what a report then has : an item for each visit to a file that is
good or bad, with the status that the file deserves (`Crawler.Deserves`), and one for each source of
other records with problems. The problems of a record go to one item of their source. So a file that
is visited twice may pass and fail in one report, and where names are no texts a problem of one file
may end up with another that is displayed alike (`Harvester.reported_twice`).
-/

namespace ArchiveLabels

open Label
open Problem (ofSource)

variable {fs : FileSystem} {x y : Stop} {level : Severity} {late : List Problem}

/-! ## Problems of records -/

/-- What a check of records finds is of the source of one of them, and not structural. -/
theorem Integrity.of_mem_problems {cs : List Category} {rs : List Record} {p : Problem}
    (h : p ∈ (check cs rs).problems) :
    p.source ∈ rs.map Record.source ∧ p.isStructural = false := by
  obtain ⟨c, -, h⟩ := List.mem_flatMap.mp h
  obtain ⟨u, hu, rfl⟩ := List.mem_map.mp h
  have huse : u ∈ c.uses rs :=
    List.mem_of_mem_filter ((firsts_sublist (f := Unmatched.value) _).mem hu)
  obtain ⟨r, hr, hu⟩ := List.mem_flatMap.mp huse
  obtain ⟨⟨value, line⟩, -, rfl⟩ := List.mem_map.mp hu
  exact ⟨List.mem_map_of_mem (List.mem_of_mem_filter hr), rfl⟩

/-! ## Stops at one path -/

namespace Crawler

variable {c : Crawler} {xs : List Stop}

/-- A candidate that is as it was is passed over, or the same becomes of it as if nothing were known.
-/
theorem admission_of_undisturbed (h : x.Undisturbed fs) :
    c.admission x = .unchanged ∨ c.admission x = (c.screening.screen fs x.path .empty).1 := by
  rw [admission, c.screening.screen_congr h.here h.read h.modified]
  exact c.screening.screen_eq_unchanged_or fs x.path x.known

/-- Of two stops at one path that are not passed over the same record is made. -/
theorem record?_eq_of_undisturbed (hx : x.Undisturbed fs) (hy : y.Undisturbed fs)
    (hp : x.path = y.path) (hux : c.admission x ≠ .unchanged) (huy : c.admission y ≠ .unchanged) :
    c.record? x = c.record? y := by
  have hadmission : c.admission x = c.admission y := by
    rw [(admission_of_undisturbed hx).resolve_left hux,
      (admission_of_undisturbed hy).resolve_left huy, hp]
  have hcwd := FileSystem.workingDirectory_congr (hx.here.trans hy.here.symm)
  rw [record?, record?, hadmission, hcwd, hp]

theorem isSuppressed_of_item? (h : (c.item? x).isSome = true) :
    (c.admission x).isSuppressed = false := by
  unfold item? at h
  cases ha : c.admission x <;> simp [ha, Admission.isSuppressed] at h ⊢

/-- A file of which a record is made has an item. -/
theorem mem_sources_items {source : String}
    (h : source ∈ (c.outcomeOf xs).records.map Record.source) :
    source ∈ (c.outcomeOf xs).items.map CrawlItem.source := by
  obtain ⟨r, hr, rfl⟩ := List.mem_map.mp h
  obtain ⟨x, hx, hrx⟩ := List.mem_filterMap.mp hr
  obtain ⟨i, hi⟩ : ∃ i, c.item? x = some i := by
    unfold record? at hrx
    split at hrx
    · rename_i t ha
      exact ⟨_, by rw [item?, ha]⟩
    · cases hrx
  rw [source_of_record? hrx, ← source_of_item? hi]
  exact List.mem_map_of_mem (List.mem_filterMap.mpr ⟨x, hx, hi⟩)

/-- A file that is visited and of which no record is made has none in the cache. -/
theorem notMem_sources_of_record?_eq_none {gs : FileSystem} {cache : RecordCache}
    (hu : ∀ x ∈ xs, x.Undisturbed fs) (hx : x ∈ xs) (hv : (c.admission x).isSuppressed = false)
    (hr : c.record? x = none) :
    x.path.text ∉ (cache.refresh gs (c.outcomeOf xs)).records.map Record.source := by
  rw [RecordCache.mem_sources_refresh_iff]
  rintro (h | ⟨-, h, -⟩)
  · obtain ⟨r, h, hsource⟩ := List.mem_map.mp h
    obtain ⟨y, hy, hry⟩ := List.mem_filterMap.mp h
    have hpath : x.path = y.path := congrArg Path.mk (hsource.symm.trans (source_of_record? hry))
    have hux : c.admission x ≠ .unchanged := fun he => by simp [he, Admission.isSuppressed] at hv
    have huy : c.admission y ≠ .unchanged := fun he => by simp [record?, he] at hry
    rw [← record?_eq_of_undisturbed (hu x hx) (hu y hy) hpath hux huy, hr] at hry
    cases hry
  · exact h (List.mem_filterMap.mpr ⟨x, hx, by rw [visited?, hv]; rfl⟩)

/-! ## The status of an item -/

/-- What is found wrong with a candidate at a stop. -/
def problemsAt (c : Crawler) (x : Stop) : List Problem :=
  ((c.item? x).map CrawlItem.problems).getD []

/-- The status is the one that the item of a stop deserves, the problems `late` having been found in
records of the file : the file fails if its label cannot be read, is skipped if its label is none,
and otherwise fails if one of its problems is an error. Of the first two there are no records. -/
def Deserves (c : Crawler) (x : Stop) (late : List Problem) (s : Status) : Prop :=
  match c.admission x with
  | .bad _ => s = .fail ∧ late = []
  | .good t =>
    match t.structuralProblem? x.path.text with
    | some _ => s = .skip ∧ late = []
    | none =>
      let e := t.extract c.policy x.path.text
      let checksums := c.checksumProblems x.files.workingDirectory x.path t
      s ≠ .skip ∧ (s = .fail ↔
        ∃ p ∈ e.problems ++ e.record.check c.policy ++ checksums ++ late, p.severity = .error)
  | _ => False

/-- An item has the status its stop deserves. -/
theorem deserves_of_item? (hx : (c.item? x).isSome = true)
    (hlate : ∀ p ∈ late, p.isStructural = false) (hnone : c.record? x = none → late = []) :
    c.Deserves x late (Assessment.ofProblems level (c.problemsAt x ++ late)).status := by
  unfold Deserves
  split
  · rename_i e ha
    obtain rfl := hnone (by simp [record?, ha])
    have hproblems : c.problemsAt x =
        [(Problem.ofKind .parseFailure e.message x.path.text).atLine e.line?] := by
      simp [problemsAt, item?, ha, badItem]
    rw [hproblems, List.append_nil]
    refine ⟨(Assessment.status_eq_fail_iff fun p hp => ?_).mpr ⟨_, List.mem_singleton_self _, rfl⟩,
      rfl⟩
    rw [List.mem_singleton.mp hp]
    rfl
  · rename_i t ha
    split
    · rename_i p hp
      obtain rfl := hnone (by simp [record?, ha, process, hp])
      refine ⟨Assessment.status_eq_skip_iff.mpr ⟨p, ?_, ?_⟩, rfl⟩
      · simp [problemsAt, item?, ha, process, hp]
      · exact Tree.isStructural_of_structuralProblem? hp
    · rename_i hp
      have hproblems : c.problemsAt x =
          (c.process x.files.workingDirectory x.path t).1.problems := by
        simp [problemsAt, item?, ha]
      have hall : ∀ p ∈ c.problemsAt x ++ late, p.isStructural = false := by
        intro p hmem
        rcases List.mem_append.mp hmem with hmem | hmem
        · exact not_isStructural_of_mem_process hp (hproblems ▸ hmem)
        · exact hlate p hmem
      refine ⟨Assessment.status_ne_skip hall, ?_⟩
      rw [Assessment.status_eq_fail_iff hall, hproblems]
      simp only [process, hp]
  · rename_i hbad hgood
    unfold item? at hx
    split at hx
    · rename_i t ha
      exact hgood t ha
    · rename_i e ha
      exact hbad e ha
    · cases hx

/-! ## The items of a report -/

/-- The items of a crawl are those of the stops that have one. -/
theorem items_eq_map (c : Crawler) (xs : List Stop) :
    (c.outcomeOf xs).items = (xs.filter fun x => (c.item? x).isSome).map fun x =>
      ⟨x.path.text, c.problemsAt x⟩ := by
  unfold outcomeOf
  dsimp only
  induction xs with
  | nil => rfl
  | cons x xs ih =>
    cases hx : c.item? x with
    | none => rw [List.filterMap_cons_none hx, List.filter_cons_of_neg (by simp [hx]), ih]
    | some i =>
      have hi : i = ⟨x.path.text, c.problemsAt x⟩ := by
        rw [← source_of_item? hx, problemsAt, hx]
        rfl
      rw [List.filterMap_cons_some hx, List.filter_cons_of_pos (by simp [hx]), ih, List.map_cons, hi]

/-- The stops that have an item, each with the late problems that are attached to it. -/
def told (c : Crawler) (xs : List Stop) (late : List Problem) : List (Stop × List Problem) :=
  let heard := xs.filter fun x => (c.item? x).isSome
  heard.zip (CrawlItem.shares late (heard.map fun x => ⟨x.path.text, c.problemsAt x⟩))

/-- A stop is told of when it has an item. -/
theorem map_fst_told (c : Crawler) (xs : List Stop) (late : List Problem) :
    (c.told xs late).map Prod.fst = xs.filter fun x => (c.item? x).isSome :=
  List.map_fst_zip (by rw [CrawlItem.length_shares, List.length_map])

/-- What is told is what was shared out. -/
theorem flatMap_snd_told (c : Crawler) (xs : List Stop) (late : List Problem) :
    (c.told xs late).flatMap Prod.snd = (CrawlItem.shares late (c.outcomeOf xs).items).flatten := by
  rw [items_eq_map, List.flatMap_def, told, List.map_snd_zip]
  rw [CrawlItem.length_shares, List.length_map]

/-- A stop is told nothing late, or all that is of its source. -/
theorem of_mem_told {y : Stop × List Problem} (hy : y ∈ c.told xs late) :
    (y.2 = [] ∨ y.2 = ofSource y.1.path.text late) ∧ y.1 ∈ xs ∧ (c.item? y.1).isSome = true :=
  ⟨CrawlItem.eq_of_mem_zip_shares (fun x => ⟨x.path.text, c.problemsAt x⟩) hy,
    List.mem_filter.mp (List.of_mem_zip hy).1⟩

/-- Behind the stops that have an item stand the sources of other late problems. -/
theorem attach_items (c : Crawler) (xs : List Stop) (late : List Problem) :
    CrawlItem.attach (c.outcomeOf xs).items late =
      (c.told xs late).map (fun y => ⟨y.1.path.text, c.problemsAt y.1 ++ y.2⟩) ++
        (CrawlItem.newSources (c.outcomeOf xs).items late).map fun source =>
          ⟨source, ofSource source late⟩ := by
  rw [CrawlItem.attach_eq, items_eq_map, CrawlItem.withShares_map]
  rfl

/-- The files that are counted bad are those of the stops at bad candidates. -/
theorem bad_outcomeOf (c : Crawler) (xs : List Stop) :
    (c.outcomeOf xs).statistics.bad = xs.countP fun x => c.admission x matches .bad _ := by
  induction xs with
  | nil => rfl
  | cons x xs ih =>
    rw [outcomeOf_cons, List.countP_cons, ← ih, Nat.add_comm]
    cases ha : c.admission x <;>
      simp [outcomeOf, CrawlOutcome.merge, ha, Admission.count, Statistics.zero, Statistics.addGood,
        Statistics.addBad, Statistics.addSkipped]

/-- No bad file goes untold. -/
theorem bad_le_countP_told (c : Crawler) (xs : List Stop) (late : List Problem) :
    (c.outcomeOf xs).statistics.bad ≤
      (c.told xs late).countP fun y => c.admission y.1 matches .bad _ := by
  have hheard : xs.countP (fun x => c.admission x matches .bad _) ≤
      (xs.filter fun x => (c.item? x).isSome).countP fun x => c.admission x matches .bad _ := by
    rw [List.countP_filter]
    refine List.countP_mono_left fun x _ hx => ?_
    rw [hx, Bool.true_and]
    cases ha : c.admission x with
    | bad e => simp [item?, ha]
    | _ => simp [ha] at hx
  rw [bad_outcomeOf]
  rwa [← map_fst_told c xs late, List.countP_map] at hheard

/-- What a report says of a crawl that made the stops `xs`, when the problems `late` have been found
in records afterwards : each file in `told` is reported with some of them. -/
structure Reported (c : Crawler) (level : Severity) (xs : List Stop) (late : List Problem)
    (told : List (Stop × List Problem)) (report : Report) : Prop where
  /-- The counts of files are those of the crawl. -/
  crawl : report.summary.crawl = (c.outcomeOf xs).statistics
  /-- The totals count the items by their status. -/
  count : ∀ s, report.summary.totals.count s = report.items.countP fun i => i.status = s
  /-- There is an item for each file that is good or bad, and one for each source of late problems
  that has none. -/
  total : report.summary.totals.passed + report.summary.totals.failed +
      report.summary.totals.skipped = report.summary.crawl.good + report.summary.crawl.bad +
        (CrawlItem.newSources (c.outcomeOf xs).items late).length
  bad_le_failed : report.summary.crawl.bad ≤ report.summary.totals.failed
  /-- The files that are told are those in which something is found, in order. -/
  files : told.map Prod.fst = xs.filter fun x => (c.item? x).isSome
  items : report.items =
    (told.map fun y => ReportItem.ofProblems level y.1.path.text (c.problemsAt y.1 ++ y.2)) ++
      (CrawlItem.newSources (c.outcomeOf xs).items late).map fun source =>
        ReportItem.ofProblems level source (ofSource source late)
  /-- Each late problem is reported with one item. -/
  perm : (told.flatMap Prod.snd ++
    (CrawlItem.newSources (c.outcomeOf xs).items late).flatMap fun source =>
      ofSource source late).Perm late
  source : ∀ y ∈ told, ∀ p ∈ y.2, p.source = y.1.path.text
  deserves : ∀ y ∈ told,
    c.Deserves y.1 y.2 (Assessment.ofProblems level (c.problemsAt y.1 ++ y.2)).status
  /-- Items without a file are not skipped, and fail if one of their problems is an error. -/
  others : ∀ source ∈ CrawlItem.newSources (c.outcomeOf xs).items late,
    (Assessment.ofProblems level (ofSource source late)).status ≠ .skip ∧
      ((Assessment.ofProblems level (ofSource source late)).status = .fail ↔
        ∃ p ∈ ofSource source late, p.severity = .error)

/-- If no late problem is structural, or of a file of which there is no record, then the items with
the late problems attached make such a report. -/
theorem reported_ofItems (c : Crawler) (xs : List Stop) (late : List Problem) (level : Severity)
    (header : ReportHeader) (hlate : ∀ p ∈ late, p.isStructural = false)
    (hnone : ∀ x ∈ xs, (c.item? x).isSome = true → c.record? x = none →
      x.path.text ∉ late.map Problem.source) :
    c.Reported level xs late (c.told xs late) (Report.ofItems level header
      ((CrawlItem.attach (c.outcomeOf xs).items late).map fun i => (i.source, i.problems))
      (c.outcomeOf xs).statistics) := by
  have hof (source : String) : ∀ p ∈ ofSource source late, p.isStructural = false :=
    fun p hp => hlate p (Problem.mem_ofSource_iff.mp hp).1
  have hdeserves : ∀ y ∈ c.told xs late,
      c.Deserves y.1 y.2 (Assessment.ofProblems level (c.problemsAt y.1 ++ y.2)).status := by
    intro y hy
    obtain ⟨hproblems, hx, hsome⟩ := of_mem_told hy
    refine deserves_of_item? hsome ?_ fun hr => ?_
    · rcases hproblems with he | he
      · simp [he]
      · exact he ▸ hof _
    · rcases hproblems with he | he
      · exact he
      · rw [he, Problem.ofSource_eq_nil_iff]
        exact hnone y.1 hx hsome hr
  constructor
  case crawl => rfl
  case count => exact Report.count_eq_countP level header _ _
  case total =>
    refine (Report.total_eq_length level header _ _).trans ?_
    rw [Report.ofItems, List.length_map, List.length_map, CrawlItem.length_attach, length_items]
  case bad_le_failed =>
    refine (c.bad_le_countP_told xs late).trans ?_
    change _ ≤ (Report.ofItems level header _ (c.outcomeOf xs).statistics).summary.totals.count .fail
    rw [Report.count_eq_countP, Report.ofItems, List.countP_map, List.countP_map, attach_items,
      List.countP_append, List.countP_map]
    refine (List.countP_mono_left fun y hy hb => ?_).trans (Nat.le_add_right _ _)
    have hd := hdeserves y hy
    unfold Deserves at hd
    cases ha : c.admission y.1 with
    | bad e =>
      rw [ha] at hd
      exact decide_eq_true hd.1
    | _ => simp [ha] at hb
  case files => exact c.map_fst_told xs late
  case items =>
    rw [attach_items]
    simp only [Report.ofItems, List.map_append, List.map_map]
    rfl
  case perm =>
    rw [flatMap_snd_told]
    exact CrawlItem.perm_shares _ _
  case source =>
    intro y hy p hp
    rcases (of_mem_told hy).1 with he | he
    · simp [he] at hp
    · exact (Problem.mem_ofSource_iff.mp (he ▸ hp)).2
  case deserves => exact hdeserves
  case others =>
    exact fun source _ =>
      ⟨Assessment.status_ne_skip (hof source), Assessment.status_eq_fail_iff (hof source)⟩

end Crawler

/-! ## The report of a harvest -/

namespace Harvester

/-- What the check of all records finds after a harvest. -/
def integrityProblems (h : Harvester) (next : HarvestState) : List Problem :=
  (Integrity.check h.config.categories next.cache.records).problems

/-- A harvest that succeeds reports each file once and with the status it deserves, if its candidates
are undisturbed : the summary that it returns is that of the report it writes, which has an item for
each file found good or bad and one for each other source of problems of records. A harvest that is
not incremental has no such sources. -/
theorem reported_of_harvest (h : Harvester) (s next : HarvestState) (fs gs : FileSystem)
    (summary : Summary) (hrun : (h.harvest s).run fs = (.ok (summary, next), gs))
    (hu : h.Undisturbed s fs) :
    ∃ c r hs xs told report, h.crawler fs = .ok c ∧ (h.crawl s).run fs = (.ok r, hs) ∧
      xs = c.stops (RecordOutput.sink h.recordFile) (.start (h.opened fs)) s.checkpoint ∧
      report = h.reportOf next.cache r.outcome ∧ summary = report.summary ∧
      (∃ ks, (h.writeReport report).run hs = (.ok (), ks)) ∧
      c.Reported h.config.report.level xs (h.integrityProblems next) told report ∧
      (h.config.crawl.persist = false →
        CrawlItem.newSources (c.outcomeOf xs).items (h.integrityProblems next) = []) := by
  obtain ⟨r, hs, ks, hcrawl, hnext, hwrite, -, rfl⟩ := of_run_harvest hrun
  obtain ⟨c, hc, -, hr, -⟩ := of_run_crawl hcrawl
  have hcache : next.cache = h.refreshed hs s r.outcome := by rw [hnext]
  have houtcome := Crawler.outcome_of_run hr
  have hcached : ∀ source ∈ (h.integrityProblems next).map Problem.source,
      source ∈ (h.refreshed hs s r.outcome).records.map Record.source := by
    intro source hsource
    obtain ⟨p, hp, rfl⟩ := List.mem_map.mp hsource
    exact hcache ▸ (Integrity.of_mem_problems hp).1
  have hreported := c.reported_ofItems
    (c.stops (RecordOutput.sink h.recordFile) (.start (h.opened fs)) s.checkpoint)
    (h.integrityProblems next) h.config.report.level h.header
    (fun p hp => (Integrity.of_mem_problems hp).2) fun x hx hsome hnone hmem => by
      have hx' := hcached _ hmem
      rw [refreshed, houtcome] at hx'
      exact Crawler.notMem_sources_of_record?_eq_none (hu c hc) hx
        (Crawler.isSuppressed_of_item? hsome) hnone hx'
  rw [← houtcome] at hreported
  refine ⟨c, r, hs, _, _, _, hc, hcrawl, rfl, rfl, rfl, ⟨ks, hwrite⟩, hreported, fun hpersist => ?_⟩
  refine List.eq_nil_iff_forall_not_mem.mpr fun source hsource => ?_
  obtain ⟨hmem, hnot⟩ := CrawlItem.mem_newSources_iff.mp hsource
  have hsource' := hcached source hmem
  rw [refreshed, hpersist, RecordCache.mem_sources_refresh_iff] at hsource'
  rcases hsource' with hfresh | ⟨hempty, -⟩
  · rw [houtcome] at hfresh
    exact hnot (Crawler.mem_sources_items hfresh)
  · cases hempty

/-- A harvester that checks which instruments catalog files refer to. -/
def ofInstruments : Harvester :=
  let h := ofCatalogs [⟨"c"⟩] none
  { h with policy := { h.policy with slotKeywords := ["INSTRUMENT_ID"] } }

/-- A label that refers to an instrument that is nowhere described. -/
def instrumentLabel : String :=
  "PDS_VERSION_ID = PDS3\nOBJECT = MISSION\nINSTRUMENT_ID = X\nEND_OBJECT = MISSION\nEND\n"

/-- A catalog file with such a label, and more files. -/
def instrumentFiles (more : Directory) : FileSystem where
  root :=
    .entry "c" (.directory (.entry "a.cat"
      (.file (Text.Utf8.encode instrumentLabel) ⟨1, 0⟩) more)) .empty
  here := []
  clock := .epoch
  printed := ""

/-- A file whose label cannot be read. -/
def brokenFile : Directory := .entry "b.cat" (.file (Text.Utf8.encode "OBJECT") ⟨1, 0⟩) .empty

/-- What the first harvest leaves. -/
def instrumentState : HarvestState :=
  ((CommandLine.harvestAgain ofInstruments .empty).run (instrumentFiles .empty)).1

set_option maxRecDepth 100000 in
/-- A file with an error is reported again although it is passed over, besides one that is bad. -/
theorem reported_of_harvest_instruments :
    ∃ (next : HarvestState) (gs : FileSystem) (summary : Summary) (c : Crawler) (xs : List Stop)
      (told : List (Stop × List Problem)) (report : Report),
      (ofInstruments.harvest instrumentState).run (instrumentFiles brokenFile) =
        (.ok (summary, next), gs) ∧ summary = report.summary ∧
      c.Reported .info xs (ofInstruments.integrityProblems next) told report ∧
      summary.totals.failed = 2 ∧ summary.crawl.bad = 1 ∧
      (CrawlItem.newSources (c.outcomeOf xs).items
        (ofInstruments.integrityProblems next)).length = 1 := by
  let counts := fun out : Summary × HarvestState =>
    (out.1.totals.passed, out.1.totals.failed, out.1.totals.skipped, out.1.crawl)
  have hcounts : ((ofInstruments.harvest instrumentState).run
      (instrumentFiles brokenFile)).1.toOption.map counts = some (0, 2, 0, ⟨0, 1, 0⟩) := by
    decide +kernel
  rcases hrun : (ofInstruments.harvest instrumentState).run (instrumentFiles brokenFile) with
    ⟨e | ⟨summary, next⟩, gs⟩
  · rw [hrun] at hcounts
    cases hcounts
  rw [hrun] at hcounts
  obtain ⟨hpassed, hfailed, hskipped, hcrawl⟩ := by
    simpa only [counts, Except.toOption, Option.map_some, Option.some.injEq, Prod.mk.injEq]
      using hcounts
  have hordered : (instrumentFiles brokenFile).root.Ordered := by
    have hlt : "a.cat" < "b.cat" := by decide
    simpa [instrumentFiles, brokenFile, Directory.Ordered, Entry.Ordered, Directory.get?] using hlt
  have hu : ofInstruments.Undisturbed instrumentState (instrumentFiles brokenFile) :=
    undisturbed_of_apart hordered ⟨_, _, hrun⟩ fun q hq => by cases hq
  obtain ⟨c, r, hs, xs, told, report, -, -, -, -, hsummary, -, hreported, -⟩ :=
    reported_of_harvest ofInstruments instrumentState next (instrumentFiles brokenFile) gs summary
      hrun hu
  have htotal := hreported.total
  rw [← hsummary, hpassed, hfailed, hskipped, hcrawl] at htotal
  dsimp only at htotal
  refine ⟨next, gs, summary, c, xs, told, report, rfl, hsummary, hreported, hfailed, ?_, ?_⟩
  · rw [hcrawl]
  · omega

/-! ## Two items of one source -/

/-- The items of a report : their sources, with the status and what is wrong. -/
def reportedAs (h : Harvester) (cache : RecordCache) (o : CrawlOutcome) :
    List (String × Status × List ProblemKind) :=
  (h.reportOf cache o).items.map fun i => (i.source, i.status, i.problems.map Problem.kind)

/-- A harvester that comes to the files of a directory twice. -/
def ofInstrumentsTwice : Harvester :=
  { ofInstruments with
    config := { ofInstruments.config with
      crawl := { ofInstruments.config.crawl with
        legacyRoots := [⟨"c"⟩, ⟨"c"⟩], persist := false } } }

/-- The bytes of a name that is no text. -/
def strayName (byte : UInt8) : ByteArray :=
  Text.Utf8.encode "c/a" ++ ⟨#[byte]⟩ ++ Text.Utf8.encode ".cat"

/-- A stop at a file whose name has the given bytes. A crawl displays what of them is no text as
U+FFFD. -/
def strayStop (name : ByteArray) (label : String) : Stop where
  path := ⟨Text.Utf8.lossy name⟩
  files := {
    root := .entry "c" (.directory (.entry "a\uFFFD.cat"
      (.file (Text.Utf8.encode label) ⟨1, 0⟩) .empty)) .empty
    here := []
    clock := .epoch
    printed := "" }
  known := .empty

set_option maxRecDepth 100000 in
/-- Two visits to a file make two items, and of these the last one only fails for what is found in
the record of the file. Of two files that are displayed alike, the last one gets what is found in the
record of the first, even if it has no record. -/
theorem reported_twice :
    (∃ out gs r hs, (ofInstrumentsTwice.harvest .empty).run (instrumentFiles .empty) =
        (.ok out, gs) ∧
      ofInstrumentsTwice.Undisturbed .empty (instrumentFiles .empty) ∧
      (ofInstrumentsTwice.crawl .empty).run (instrumentFiles .empty) = (.ok r, hs) ∧
      ofInstrumentsTwice.reportedAs out.2.cache r.outcome =
        [("c/a.cat", .pass, [.noAssociations]),
          ("c/a.cat", .fail, [.noAssociations, .unmatchedReference])]) ∧
    ∃ c x y, ofInstruments.crawler default = .ok c ∧
      strayName 0xfe ≠ strayName 0xff ∧ x = strayStop (strayName 0xfe) instrumentLabel ∧
      y = strayStop (strayName 0xff) "OBJECT" ∧
      ofInstruments.reportedAs (RecordCache.empty.refresh y.files (c.outcomeOf [x, y]))
          (c.outcomeOf [x, y]) =
        [("c/a\uFFFD.cat", .pass, [.noAssociations]),
          ("c/a\uFFFD.cat", .fail, [.parseFailure, .unmatchedReference])] := by
  constructor
  · have hok : ((ofInstrumentsTwice.harvest .empty).run (instrumentFiles .empty)).1.map
        (fun _ => ()) = .ok () := by
      decide +kernel
    have hitems : ((ofInstrumentsTwice.crawl .empty).run (instrumentFiles .empty)).1.toOption.map
        (fun r => ofInstrumentsTwice.reportedAs (ofInstrumentsTwice.refreshed
          ((ofInstrumentsTwice.crawl .empty).run (instrumentFiles .empty)).2 .empty r.outcome)
          r.outcome) = some [("c/a.cat", .pass, [.noAssociations]),
            ("c/a.cat", .fail, [.noAssociations, .unmatchedReference])] := by
      decide +kernel
    have hordered : (instrumentFiles .empty).root.Ordered := by
      simp [instrumentFiles, Directory.Ordered, Entry.Ordered, Directory.get?]
    obtain ⟨⟨summary, next⟩, gs, hrun⟩ := succeeds_of_isOk hok
    obtain ⟨r, hs, -, hcrawl, rfl, -⟩ := of_run_harvest hrun
    rw [hcrawl] at hitems
    exact ⟨_, gs, r, hs, hrun, undisturbed_of_apart hordered ⟨_, _, hrun⟩ fun q hq => (by cases hq),
      hcrawl, Option.some.inj hitems⟩
  · have hitems : (ofInstruments.crawler default).toOption.map (fun c =>
        let o := c.outcomeOf [strayStop (strayName 0xfe) instrumentLabel,
          strayStop (strayName 0xff) "OBJECT"]
        ofInstruments.reportedAs (RecordCache.empty.refresh
          (strayStop (strayName 0xff) "OBJECT").files o) o) =
        some [("c/a\uFFFD.cat", .pass, [.noAssociations]),
          ("c/a\uFFFD.cat", .fail, [.parseFailure, .unmatchedReference])] := by
      decide +kernel
    cases hc : ofInstruments.crawler default with
    | error e =>
      rw [hc] at hitems
      cases hitems
    | ok c =>
      rw [hc] at hitems
      exact ⟨c, _, _, rfl, by decide +kernel, rfl, rfl, Option.some.inj hitems⟩

end Harvester

end ArchiveLabels
