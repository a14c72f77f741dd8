import ArchiveLabels.Proofs.Crawl.Leaders
import ArchiveLabels.Proofs.Crawl.Refresh
import ArchiveLabels.Proofs.Harvest.Success

/-!
# One incremental harvest

A harvest that passes over files that have not changed leaves a state that is told by its candidates
and the state before : `Harvester.harvested_of_succeeds`. The candidates have to be as they are when
the crawl starts whenever it comes to them, which they are if the file of records is none of them
(`Harvester.undisturbed_of_apart`).
-/

namespace ArchiveLabels

open FileSystem (Alike ChangesOnly Apart)

/-! ## Files apart from the written ones -/

namespace FileSystem

variable {fs gs : FileSystem} {ps : List Path} {p : Path} {place : List String}

/-- Paths lead to the same places in file systems alike. -/
theorem Alike.leadsTo_iff (h : Alike fs gs) : gs.LeadsTo p place ↔ fs.LeadsTo p place := by
  constructor
  · rintro ⟨e, hl⟩
    obtain ⟨e', hl', -⟩ := h.symm.found hl
    exact ⟨e', hl'⟩
  · rintro ⟨e, hl⟩
    obtain ⟨e', hl', -⟩ := h.found hl
    exact ⟨e', hl'⟩

/-- What a path leads to is as it was, but for what is in a directory, if no written path leads
there. -/
theorem entry?_eq_of_apart (ha : Alike fs gs) (hc : ChangesOnly ps fs gs)
    (hp : ∀ q ∈ ps, fs.Apart q p) :
    gs.entry? p = fs.entry? p ∨ ∃ d d', fs.entry? p = .ok (.directory d) ∧
      gs.entry? p = .ok (.directory d') := by
  cases hf : fs.entry? p with
  | error e => exact .inl (ha.entry?_error hf)
  | ok e =>
    obtain ⟨e', hg, hb⟩ := ha.entry?_ok hf
    cases e with
    | link target => exact .inl (by rw [hg, Entry.eq_link_of_blank hb])
    | directory d =>
      obtain ⟨d', rfl, -⟩ := Entry.exists_directory_of_blank hb
      exact .inr ⟨d, d', rfl, hg⟩
    | file content t =>
      obtain ⟨place, hl⟩ := entry?_eq_ok_iff.mp hf
      obtain ⟨place', hl'⟩ := entry?_eq_ok_iff.mp hg
      obtain rfl := (ha.leadsTo_iff.mp ⟨_, hl'⟩).eq ⟨_, hl⟩
      have hunwritten : ∀ q ∈ ps, ¬gs.LeadsTo q place' := fun q hq hlq =>
        hp q hq place' (ha.leadsTo_iff.mp hlq) ⟨_, hl⟩
      have hfile := (hc.look_file_iff hunwritten content t).mpr
        (Directory.look_eq_file_iff.mpr (at?_of_locate hl))
      obtain rfl := Option.some.inj ((at?_of_locate hl').symm.trans
        (Directory.look_eq_file_iff.mp hfile))
      exact .inl hg

/-- A file apart from those written reads as before. -/
theorem read_eq_of_apart (ha : Alike fs gs) (hc : ChangesOnly ps fs gs)
    (hp : ∀ q ∈ ps, fs.Apart q p) : gs.read p = fs.read p ∧ gs.modified p = fs.modified p := by
  rcases entry?_eq_of_apart ha hc hp with he | ⟨d, d', hf, hg⟩
  · rw [read, read, modified, modified, he]
    exact ⟨rfl, rfl⟩
  · rw [read, read, modified, modified, hf, hg]
    exact ⟨rfl, rfl⟩

end FileSystem

namespace Harvester

variable {h : Harvester} {s next : HarvestState} {fs gs : FileSystem} {c : Crawler} {p : Path}

/-! ## Candidates -/

/-- The candidates of a harvest. -/
def candidates (h : Harvester) (fs : FileSystem) : List Path :=
  match h.crawler fs with
  | .ok c => c.candidates (h.opened fs)
  | .error _ => []

/-- The candidates that lead somewhere and are the first to do so under their keys. -/
def leaders (h : Harvester) (fs : FileSystem) : List Path :=
  (h.opened fs).leaders (h.candidates fs)

/-- The record that a harvest can make of a file. -/
def recordOf (h : Harvester) (fs : FileSystem) (p : Path) : Option Record :=
  match h.crawler fs with
  | .ok c => c.recordOf (h.opened fs) p
  | .error _ => none

/-- The files that a harvest visits. -/
def visited (h : Harvester) (s : HarvestState) (fs : FileSystem) : List String :=
  match ((h.crawl s).run fs).1 with
  | .ok r => r.outcome.visited
  | .error _ => []

/-- Whenever the crawl of a harvest comes to a candidate, this is as it was when the crawl started.
-/
def Undisturbed (h : Harvester) (s : HarvestState) (fs : FileSystem) : Prop :=
  ∀ c, h.crawler fs = .ok c →
    ∀ x ∈ c.stops (RecordOutput.sink h.recordFile) (.start (h.opened fs)) s.checkpoint,
      x.Undisturbed (h.opened fs)

/-- A harvester that passes over files that have not changed and leaves out none. -/
structure IsIncremental (h : Harvester) : Prop where
  persist : h.config.crawl.persist = true
  collections : h.config.crawl.collections = []

namespace IsIncremental

/-- An incremental harvest has no inventories to read, so that its crawler does not depend on
the files. -/
theorem crawler_eq (hi : h.IsIncremental) (fs gs : FileSystem) : h.crawler fs = h.crawler gs := by
  simp only [crawler, Crawler.prepare, hi.collections, FileSystem.readExclusions, List.foldlM_nil]

theorem of_crawler (hi : h.IsIncremental) (hc : h.crawler fs = .ok c) :
    c.incremental = true ∧ c.exclusions = .empty := by
  simp only [crawler, Crawler.prepare, hi.collections, hi.persist, FileSystem.readExclusions,
    List.foldlM_nil] at hc
  cases hf : Filters.ofLists h.config.crawl.includedFiles h.config.crawl.excludedFiles
    h.config.crawl.excludedDirectories with
  | error e => simp [hf, Except.mapError, Except.map, bind, Except.bind] at hc
  | ok f =>
    simp only [hf, Except.mapError, Except.map, bind, Except.bind, pure, Except.pure,
      Except.ok.injEq] at hc
    rw [← hc]
    exact ⟨rfl, rfl⟩

/-- The record is a matter of the bytes in the file and of the current directory. -/
theorem recordOf_congr (hi : h.IsIncremental) (hh : (h.opened gs).here = (h.opened fs).here)
    (hr : (h.opened gs).read p = (h.opened fs).read p) : h.recordOf gs p = h.recordOf fs p := by
  unfold recordOf
  rw [hi.crawler_eq gs fs]
  cases h.crawler fs with
  | error e => rfl
  | ok c => exact Crawler.recordOf_congr hh hr

end IsIncremental

theorem source_of_recordOf {r : Record} (hr : h.recordOf fs p = some r) : r.source = p.text := by
  unfold recordOf at hr
  split at hr
  · exact Crawler.source_of_recordOf hr
  · cases hr

theorem here_opened (h : Harvester) (fs : FileSystem) : (h.opened fs).here = fs.here :=
  (changesOnly_openRecords h fs).here

/-! ## Undisturbed candidates -/

/-- The candidates are undisturbed if the file of records is none of them. -/
theorem undisturbed_of_apart (ho : fs.root.Ordered) (hs : h.Succeeds s fs)
    (ha : ∀ q ∈ h.recordFile, ∀ p ∈ h.candidates fs, (h.opened fs).Apart q p) :
    h.Undisturbed s fs := by
  obtain ⟨r, gs, hrun, -⟩ := succeeds_iff.mp hs
  obtain ⟨c, hc⟩ := crawled_of_run_crawl ho hrun
  intro c' hc' x hx
  obtain rfl := Except.ok.inj (hc.crawler.symm.trans hc')
  have halike := Crawler.alike_of_tour (c := c) (k := s.checkpoint) hc.stands
  have hpath := Crawler.path_mem_candidates (fun l hl => (halike l hl).1) hx
  obtain ⟨l, hl, hxl⟩ := List.mem_flatMap.mp hx
  -- Besides being alike, the files at a stop differ in the file of records only.
  obtain ⟨o, hch, hfiles⟩ := (Crawler.sink_of_legs
    (P := fun o : RecordOutput => ChangesOnly h.recordFile.toList (h.opened fs) o.files)
    (fun r _ hch => RecordOutput.changesOnly_accept hch r)
    (.refl _ (h.opened fs)) c.targets l hl).2 x hxl
  rw [RecordOutput.files_sink] at hfiles
  have hx' := (halike l hl).2 x hxl
  have hread : x.files.read x.path = (h.opened fs).read x.path ∧
      x.files.modified x.path = (h.opened fs).modified x.path := by
    refine FileSystem.read_eq_of_apart hx' (hfiles ▸ hch) fun q hq => ?_
    refine ha q (Option.mem_toList.mp hq) x.path ?_
    rw [candidates, hc.crawler]
    exact hpath
  exact ⟨hx'.here, hread.1, hread.2⟩

/-! ## The state that is left -/

/-- What becomes of the state in a harvest : the files visited are those that lead nowhere and the
leaders that have changed, the records are those made of the latter and those of files that were not
visited and are still there, and the times of visited files are kept. -/
structure Harvested (h : Harvester) (s : HarvestState) (fs : FileSystem) (next : HarvestState) :
    Prop where
  mem_visited_iff : ∀ p : Path, p.text ∈ h.visited s fs ↔
    (p ∈ h.candidates fs ∧ (h.opened fs).has p = false) ∨
      (p ∈ h.leaders fs ∧ s.checkpoint.isChanged (h.opened fs) p = true)
  mem_records_iff : ∀ r, r ∈ next.cache.records ↔
    (∃ p ∈ h.leaders fs, s.checkpoint.isChanged (h.opened fs) p = true ∧
      h.recordOf fs p = some r) ∨
    (r ∈ s.cache.records ∧ r.source ∉ h.visited s fs ∧ (h.opened fs).has ⟨r.source⟩ = true)
  get?_checkpoint : ∀ q, next.checkpoint.get? (h.opened fs).workingDirectory q =
    match (h.opened fs).visitOf (h.visited s fs) q with
    | some p => ((h.opened fs).modified p).toOption
    | none => s.checkpoint.get? (h.opened fs).workingDirectory q

variable {r : CrawlProgress RecordOutput}

/-- The candidates of a cycle are those of its crawler. -/
theorem Crawled.candidates_eq (hc : h.Crawled s fs c r gs) :
    h.candidates fs = c.candidates (h.opened fs) := by
  rw [candidates, hc.crawler]

theorem Crawled.recordOf_eq (hc : h.Crawled s fs c r gs) (p : Path) :
    h.recordOf fs p = c.recordOf (h.opened fs) p := by
  rw [recordOf, hc.crawler]

/-- The crawl of a harvest goes to its candidates. -/
theorem Crawled.walked (hi : h.IsIncremental) (hc : h.Crawled s fs c r gs)
    (hh : fs.HasProperHere) (hu : h.Undisturbed s fs) :
    c.Walked (h.opened fs) s.checkpoint (h.candidates fs) r.outcome.records r.outcome.visited
      r.checkpoint := by
  obtain ⟨hinc, hex⟩ := hi.of_crawler hc.crawler
  have hproper : (h.opened fs).HasProperHere := by
    rw [FileSystem.HasProperHere, here_opened]
    exact hh
  have hgives := Crawler.gives_of_run hc.run
  have hwalked := Crawler.walked_of_follows hinc hex hproper (Crawler.follows_stops c _ _ _)
    ⟨_, hgives.accepted⟩ (hu c hc.crawler)
  rw [Crawler.paths_of_run hc.run fun l hl => (Crawler.alike_of_tour hc.stands l hl).1] at hwalked
  rw [hc.candidates_eq, hgives.checkpoint, Crawler.outcome_of_run hc.run]
  exact hwalked

/-- A cycle that succeeds harvests what it should, from any cache with one record each. -/
theorem harvested_of_succeeds (hi : h.IsIncremental) (hone : s.cache.HasOneEach)
    (ho : fs.root.Ordered) (hh : fs.HasProperHere) (hu : h.Undisturbed s fs)
    (hs : h.Succeeds s fs) :
    h.Harvested s fs ((CommandLine.harvestAgain h s).run fs).1 := by
  obtain ⟨⟨summary, next⟩, gs, hrun⟩ := hs
  obtain ⟨c, r, hs, hcrawl, hc, rfl⟩ := crawled_of_run_harvest ho hrun
  have hw := hc.walked hi hh hu
  have hvisited : h.visited s fs = r.outcome.visited := by
    rw [visited, hcrawl]
  rw [run_harvestAgain, hrun]
  constructor
  · intro p
    rw [hvisited, hw.mem_visited_iff, List.mem_filter]
    rfl
  · intro q
    have hrefresh : h.refreshed hs s r.outcome = s.cache.refresh hs r.outcome := by
      rw [refreshed, if_pos hi.persist]
    have hmade : q ∈ r.outcome.records ↔ ∃ p ∈ h.leaders fs,
        s.checkpoint.isChanged (h.opened fs) p = true ∧ h.recordOf fs p = some q := by
      rw [hw.records_eq, List.mem_filterMap]
      simp only [List.mem_filter, hc.recordOf_eq, and_assoc]
      rfl
    rw [hvisited, hrefresh, RecordCache.mem_refresh_iff hone hw.nodup_sources, hc.alike.has, hmade]
    refine or_congr_right (and_congr_right fun _ => and_iff_right_of_imp fun hnot hm => ?_)
    exact hnot.1 (hw.source_mem_visited hm)
  · intro q
    rw [hvisited]
    exact hw.get?_known q

/-- The cache has one record of each source whether the harvest succeeds or not. -/
theorem hasOneEach_harvestAgain (hone : s.cache.HasOneEach) (fs : FileSystem) :
    ((CommandLine.harvestAgain h s).run fs).1.cache.HasOneEach := by
  rw [run_harvestAgain, run_harvest]
  split
  · rename_i hrun
    split at hrun
    · cases hrun
    dsimp only at hrun
    split at hrun
    · cases hrun
    split at hrun
    · cases hrun
    obtain rfl := (Prod.mk.inj (Except.ok.inj (Prod.mk.inj hrun).1)).2
    refine RecordCache.hasOneEach_refresh ?_ _ _
    split
    · exact hone
    · exact RecordCache.hasOneEach_empty
  · exact hone

end Harvester

end ArchiveLabels
