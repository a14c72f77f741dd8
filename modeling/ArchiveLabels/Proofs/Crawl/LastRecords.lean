import ArchiveLabels.Proofs.Crawl.Refresh

/-!
# The cache as a table of last records

A crawl may make more than one record of a source, visit a source without making one, and make one
of a file that is gone meanwhile. What the cache has then is told source by source
(`RecordCache.refresh_lastRecords`) : the last record that the crawl made, else what was there
before, unless the source was visited or is gone. Records stay in their places, and new ones follow
in the order in which their sources first came up.

The list of sources and the record of each determine the cache (`RecordCache.eq_of_firstOf?`), so
that the same crawl makes no difference for a second time (`RecordCache.refresh_refresh`).
-/

namespace ArchiveLabels

namespace RecordCache

open Record (firstOf? lastOf?)

variable {rs qs : List Record} {c : RecordCache}

/-- Records of different sources are told by their sources and by the record of each. -/
theorem eq_of_firstOf? (hs : rs.map Record.source = qs.map Record.source)
    (hn : (rs.map Record.source).Nodup) (h : ∀ s, firstOf? s rs = firstOf? s qs) : rs = qs := by
  induction rs generalizing qs with
  | nil => exact (List.map_eq_nil_iff.mp hs.symm).symm
  | cons r rs ih =>
    obtain ⟨q, qs, rfl, hqr, hqs⟩ := List.map_eq_cons_iff.mp hs.symm
    obtain ⟨hr, hn⟩ := List.nodup_cons.mp hn
    have hhead := h r.source
    rw [Record.firstOf?_cons, Record.firstOf?_cons, if_pos rfl, if_pos hqr] at hhead
    obtain rfl := Option.some.inj hhead
    refine congrArg _ (ih hqs.symm hn fun s => ?_)
    have htail := h s
    rw [Record.firstOf?_cons, Record.firstOf?_cons] at htail
    by_cases hrs : r.source = s
    · subst hrs
      rw [Record.firstOf?_eq_none_iff.mpr hr, Record.firstOf?_eq_none_iff.mpr (hqs ▸ hr)]
    · rwa [if_neg hrs, if_neg hrs] at htail

/-- The same crawl makes no difference for a second time. -/
theorem refresh_refresh (hc : c.HasOneEach) (fs : FileSystem) (o : CrawlOutcome) :
    (c.refresh fs o).refresh fs o = c.refresh fs o := by
  have hmade : ∀ s ∈ o.records.map Record.source, s ∈ (c.refresh fs o).records.map Record.source :=
    fun s hs => mem_sources_refresh_iff.mpr (.inl hs)
  have hleft : ∀ s ∈ (c.refresh fs o).records.map Record.source, Leaves fs o s := fun s hs =>
    (mem_sources_refresh_iff.mp hs).imp_right And.right
  have hsources : ((c.refresh fs o).refresh fs o).records.map Record.source =
      (c.refresh fs o).records.map Record.source := by
    rw [sources_refresh, List.filter_eq_self.mpr fun s hs => decide_eq_true (hleft s hs),
      List.filter_eq_nil_iff.mpr fun s hs => by simpa using hmade s hs, List.eraseDups_nil,
      List.append_nil]
  have hone := hasOneEach_refresh (hasOneEach_refresh hc fs o) fs o
  refine congrArg mk (eq_of_firstOf? hsources hone fun s => ?_)
  change ((c.refresh fs o).refresh fs o).recordOf? s = (c.refresh fs o).recordOf? s
  rw [recordOf?_refresh, recordOf?_refresh]
  split
  · rfl
  · split
    · rfl
    · split <;> rfl

/-- The cache behind crawls, the first of which finds it empty. -/
def afterAll (crawls : List (FileSystem × CrawlOutcome)) : RecordCache :=
  crawls.foldl (fun c x => c.refresh x.1 x.2) .empty

/-- However many crawls there were, no source has two records. -/
theorem hasOneEach_afterAll (crawls : List (FileSystem × CrawlOutcome)) :
    (afterAll crawls).HasOneEach := by
  refine List.foldlRecOn crawls _ hasOneEach_empty fun c hc x _ => ?_
  exact hasOneEach_refresh hc x.1 x.2

/-- The cache is a table of last records : it has one record of each source, the last one that the
crawl made or, if this made none and passed the source over, the one from before, if there is still
something at the source. The sources that are left keep their order, and new ones follow in the
order in which the crawl came to them. A second time the same crawl makes no difference. -/
theorem refresh_lastRecords (hc : c.HasOneEach) (fs : FileSystem) (o : CrawlOutcome) :
    (c.refresh fs o).HasOneEach ∧
    (∀ source, (c.refresh fs o).recordOf? source =
      match lastOf? source o.records with
      | some r => some r
      | none =>
        if source ∈ o.visited then none
        else if fs.has ⟨source⟩ then c.recordOf? source else none) ∧
    (∃ new, (c.refresh fs o).records.map Record.source =
        ((c.records.map Record.source).filter fun s => Leaves fs o s) ++ new ∧
      (∀ s, s ∈ new ↔ s ∈ o.records.map Record.source ∧ s ∉ c.records.map Record.source) ∧
      InOrderOf (o.records.map Record.source) new) ∧
    (c.refresh fs o).refresh fs o = c.refresh fs o ∧
    ∀ crawls, (afterAll crawls).HasOneEach := by
  refine ⟨hasOneEach_refresh hc fs o, c.recordOf?_refresh fs o,
    ⟨_, c.sources_refresh fs o, fun s => ?_, inOrderOf_eraseDups_filter _ _⟩,
    refresh_refresh hc fs o, hasOneEach_afterAll⟩
  rw [List.mem_eraseDups, List.mem_filter, decide_eq_true_eq]

/-- A record of a source, with a title to know it by. -/
def titled (source title : String) : Record :=
  ⟨source, none, some title, "Catalog", [], [], []⟩

/-- A cache of three sources, of which only the first one is still there. -/
def agedCache : RecordCache := ⟨[titled "/a" "A", titled "/b" "B", titled "/c" "C"]⟩

/-- The one file that is still there. -/
def agedFiles : FileSystem where
  root := .entry "a" (.file .empty .epoch) .empty
  here := []
  clock := .epoch
  printed := ""

/-- A crawl that made two records of a file, which is gone by now, and none of another. -/
def agedCrawl : CrawlOutcome :=
  { CrawlOutcome.empty with
    records := [titled "/d" "D", titled "/b" "B1", titled "/b" "B2"], visited := ["/b", "/c", "/d"] }

set_option maxRecDepth 10000 in
/-- The first source was passed over, the second has the later of its records, in its place, and the
third is dropped. -/
theorem refresh_lastRecords_aged : agedCache.HasOneEach ∧
    (agedCache.refresh agedFiles agedCrawl).HasOneEach ∧
    (agedCache.refresh agedFiles agedCrawl).recordOf? "/a" = some (titled "/a" "A") ∧
    (agedCache.refresh agedFiles agedCrawl).recordOf? "/b" = some (titled "/b" "B2") ∧
    (agedCache.refresh agedFiles agedCrawl).recordOf? "/c" = none ∧
    (agedCache.refresh agedFiles agedCrawl).records.map Record.source = ["/a", "/b", "/d"] := by
  have hc : agedCache.HasOneEach := by
    unfold HasOneEach
    decide
  obtain ⟨hone, hrecord, -, -, -⟩ := refresh_lastRecords hc agedFiles agedCrawl
  exact ⟨hc, hone, (hrecord _).trans (by decide +kernel), (hrecord _).trans (by decide +kernel),
    (hrecord _).trans (by decide +kernel), by decide +kernel⟩

end RecordCache

end ArchiveLabels
