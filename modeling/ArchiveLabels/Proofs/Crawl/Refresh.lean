import ArchiveLabels.Crawl.RecordCache
import ArchiveLabels.Proofs.Firsts

/-!
# The cache after a crawl

The cache has one record of each source (`RecordCache.HasOneEach`), and a crawl leaves it so. What
storing records does is told by the list of sources (`RecordCache.sources_foldl_store`), which keep
their places, and by the record of each (`RecordCache.firstOf?_foldl_store`), which is the last one
stored. So a crawl leaves the sources of `RecordCache.sources_refresh`, each with the record of
`RecordCache.recordOf?_refresh`.

What the cache has then is what the crawl made and, of the sources that it passed over, what it had
before, if there is still something where the source was (`RecordCache.mem_refresh_iff`). Of which
sources it has records is told for any cache (`RecordCache.mem_sources_refresh_iff`).
-/

namespace ArchiveLabels

namespace Record

/-- The first record of a source. -/
def firstOf? (source : String) (rs : List Record) : Option Record :=
  rs.find? fun r => r.source = source

/-- The last record of a source. -/
def lastOf? (source : String) (rs : List Record) : Option Record :=
  (rs.filter fun r => r.source = source).getLast?

variable {r : Record} {rs : List Record} {source : String}

/-- The first record of a source is found in front, or behind. -/
theorem firstOf?_cons : firstOf? source (r :: rs) =
    if r.source = source then some r else firstOf? source rs := by
  rw [firstOf?, List.find?_cons]
  by_cases h : r.source = source <;> simp [h, firstOf?]

theorem lastOf?_cons : lastOf? source (r :: rs) =
    (lastOf? source rs).or (if r.source = source then some r else none) := by
  unfold lastOf?
  by_cases h : r.source = source
  · rw [List.filter_cons_of_pos (by simpa using h), if_pos h, List.getLast?_cons]
    cases (rs.filter fun r => r.source = source).getLast? <;> rfl
  · rw [List.filter_cons_of_neg (by simpa using h), if_neg h, Option.or_none]

theorem firstOf?_eq_none_iff : firstOf? source rs = none ↔ source ∉ rs.map Record.source := by
  simp [firstOf?]

theorem lastOf?_eq_none_iff : lastOf? source rs = none ↔ source ∉ rs.map Record.source := by
  simp [lastOf?]

/-- Where no source has two records, each record is the first of its source. -/
theorem mem_iff_firstOf? (h : (rs.map Record.source).Nodup) :
    r ∈ rs ↔ firstOf? r.source rs = some r := by
  induction rs with
  | nil => simp [firstOf?]
  | cons s rs ih =>
    obtain ⟨hs, hrs⟩ := List.nodup_cons.mp h
    rw [firstOf?_cons, List.mem_cons, ih hrs]
    by_cases he : s.source = r.source
    · rw [if_pos he, firstOf?_eq_none_iff.mpr (he ▸ hs), Option.some_inj, eq_comm]
      exact or_iff_left (Option.some_ne_none r).symm
    · rw [if_neg he]
      exact or_iff_right fun hrs => he (congrArg Record.source hrs).symm

/-- Of different sources, the first and the last record are one. -/
theorem lastOf?_eq_firstOf? (h : (rs.map Record.source).Nodup) :
    lastOf? source rs = firstOf? source rs := by
  induction rs with
  | nil => rfl
  | cons s rs ih =>
    obtain ⟨hs, hrs⟩ := List.nodup_cons.mp h
    rw [lastOf?_cons, firstOf?_cons]
    by_cases he : s.source = source
    · rw [if_pos he, if_pos he, lastOf?_eq_none_iff.mpr (he ▸ hs), Option.none_or]
    · rw [if_neg he, if_neg he, ih hrs, Option.or_none]

end Record

open Record (firstOf? lastOf?)

namespace RecordCache

variable {r s : Record} {rs qs : List Record} {c : RecordCache} {fs : FileSystem} {o : CrawlOutcome}
  {source : String}

/-- No two records are of one source. -/
def HasOneEach (c : RecordCache) : Prop :=
  (c.records.map Record.source).Nodup

/-- The record of a source. -/
def recordOf? (c : RecordCache) (source : String) : Option Record :=
  firstOf? source c.records

theorem hasOneEach_empty : empty.HasOneEach := .nil

/-! ## Records that are stored -/

/-- A stored record takes the place of the one of its source, or the last place. -/
theorem sources_store (r : Record) (rs : List Record) : (store r rs).map Record.source =
    if r.source ∈ rs.map Record.source then rs.map Record.source
    else rs.map Record.source ++ [r.source] := by
  induction rs with
  | nil => rfl
  | cons s rs ih =>
    rw [store]
    by_cases hs : s.source = r.source
    · rw [if_pos hs, List.map_cons, List.map_cons, hs, if_pos List.mem_cons_self]
    · have hmem : r.source ∈ s.source :: rs.map Record.source ↔
          r.source ∈ rs.map Record.source := by
        rw [List.mem_cons, or_iff_right (Ne.symm hs)]
      rw [if_neg hs, List.map_cons, ih, List.map_cons]
      simp only [hmem]
      split <;> rfl

/-- Sources keep their places, and those that are new follow in the order in which they come up. -/
theorem sources_foldl_store (qs rs : List Record) :
    (qs.foldl (fun rs r => store r rs) rs).map Record.source = rs.map Record.source ++
      ((qs.map Record.source).filter fun s => s ∉ rs.map Record.source).eraseDups := by
  induction qs generalizing rs with
  | nil => simp
  | cons q qs ih =>
    rw [List.foldl_cons, ih, sources_store, List.map_cons]
    by_cases hq : q.source ∈ rs.map Record.source
    · rw [if_pos hq, List.filter_cons_of_neg (by simpa using hq)]
    · have hrest : ((qs.map Record.source).filter fun s => s ∉ rs.map Record.source ++ [q.source]) =
          ((qs.map Record.source).filter fun s => s ∉ rs.map Record.source).filter
            fun s => !s == q.source := by
        rw [List.filter_filter]
        exact List.filter_congr fun s _ => by
          simp only [List.mem_append, List.mem_singleton, not_or, Bool.decide_and, Bool.and_comm,
            beq_eq_decide, decide_not]
      rw [if_neg hq, List.filter_cons_of_pos (by simpa using hq), List.eraseDups_cons, hrest,
        List.append_assoc]
      rfl

theorem nodup_foldl_store (qs : List Record) (h : (rs.map Record.source).Nodup) :
    ((qs.foldl (fun rs r => store r rs) rs).map Record.source).Nodup := by
  rw [sources_foldl_store]
  refine List.nodup_append.mpr ⟨h, nodup_eraseDups _, fun s hs new hnew he => ?_⟩
  have hnew := (List.mem_filter.mp (List.mem_eraseDups.mp hnew)).2
  exact of_decide_eq_true hnew (he ▸ hs)

/-- It is the record of its source, and leaves those of the others. -/
theorem firstOf?_store (r : Record) (rs : List Record) (source : String) :
    firstOf? source (store r rs) =
      if r.source = source then some r else firstOf? source rs := by
  induction rs with
  | nil => rw [store, Record.firstOf?_cons]
  | cons s rs ih =>
    rw [store, Record.firstOf?_cons]
    by_cases hs : s.source = r.source
    · rw [if_pos hs, Record.firstOf?_cons, hs]
      split <;> rfl
    · rw [if_neg hs, Record.firstOf?_cons, ih]
      by_cases hr : r.source = source
      · rw [if_pos hr, if_pos hr, if_neg (hr ▸ hs)]
      · rw [if_neg hr, if_neg hr]

/-- The last record of a source that is stored counts. -/
theorem firstOf?_foldl_store (qs rs : List Record) (source : String) :
    firstOf? source (qs.foldl (fun rs r => store r rs) rs) =
      (lastOf? source qs).or (firstOf? source rs) := by
  induction qs generalizing rs with
  | nil => rfl
  | cons q qs ih =>
    rw [List.foldl_cons, ih, firstOf?_store, Record.lastOf?_cons, Option.or_assoc]
    split <;> rfl

/-! ## After a crawl -/

/-- The crawl leaves the cache the record that it has of a source. -/
def Leaves (fs : FileSystem) (o : CrawlOutcome) (source : String) : Prop :=
  source ∈ o.records.map Record.source ∨ source ∉ o.visited ∧ fs.has ⟨source⟩ = true

instance : Decidable (Leaves fs o source) := inferInstanceAs (Decidable (_ ∨ _))

/-- A record is kept when its source is left alone. -/
theorem keeps_iff : keeps fs o r = true ↔ Leaves fs o r.source := by
  simp [keeps, Leaves, List.any_eq_true, List.mem_map]

theorem sources_filter_keeps (fs : FileSystem) (o : CrawlOutcome) (rs : List Record) :
    (rs.filter (keeps fs o)).map Record.source =
      (rs.map Record.source).filter fun s => Leaves fs o s := by
  rw [List.filter_map]
  refine congrArg _ (List.filter_congr fun r _ => ?_)
  exact Bool.eq_iff_iff.mpr (keeps_iff.trans decide_eq_true_iff.symm)

theorem firstOf?_filter_keeps (fs : FileSystem) (o : CrawlOutcome) (rs : List Record)
    (source : String) : firstOf? source (rs.filter (keeps fs o)) =
      if Leaves fs o source then firstOf? source rs else none := by
  induction rs with
  | nil => simp [firstOf?]
  | cons r rs ih =>
    rw [Record.firstOf?_cons]
    by_cases hl : Leaves fs o r.source
    · rw [List.filter_cons_of_pos (keeps_iff.mpr hl), Record.firstOf?_cons, ih]
      by_cases hr : r.source = source
      · rw [if_pos hr, if_pos hr, if_pos (hr ▸ hl)]
      · rw [if_neg hr, if_neg hr]
    · rw [List.filter_cons_of_neg (mt keeps_iff.mp hl), ih]
      by_cases hr : r.source = source
      · rw [if_neg (hr ▸ hl), if_neg (hr ▸ hl)]
      · rw [if_neg hr]

/-- First the sources that were left alone, in their places, then the new ones in the order of
the crawl. -/
theorem sources_refresh (c : RecordCache) (fs : FileSystem) (o : CrawlOutcome) :
    (c.refresh fs o).records.map Record.source =
      ((c.records.map Record.source).filter fun s => Leaves fs o s) ++
        ((o.records.map Record.source).filter fun s =>
          s ∉ c.records.map Record.source).eraseDups := by
  rw [refresh, sources_foldl_store, sources_filter_keeps]
  refine congrArg (fun ss => _ ++ List.eraseDups ss) (List.filter_congr fun s hs => ?_)
  -- A source of which the crawl made a record is left in the cache.
  have hleaves : Leaves fs o s := .inl hs
  simp [List.mem_filter, hleaves]

/-- The record of a source is the last one of the crawl, or the one before if its source is left
alone. -/
theorem recordOf?_refresh (c : RecordCache) (fs : FileSystem) (o : CrawlOutcome) (source : String) :
    (c.refresh fs o).recordOf? source =
      match lastOf? source o.records with
      | some r => some r
      | none =>
        if source ∈ o.visited then none
        else if fs.has ⟨source⟩ then c.recordOf? source else none := by
  rw [recordOf?, refresh, firstOf?_foldl_store, firstOf?_filter_keeps]
  cases hlast : lastOf? source o.records with
  | some r => rfl
  | none =>
    have hmade := Record.lastOf?_eq_none_iff.mp hlast
    have hleaves : Leaves fs o source ↔ source ∉ o.visited ∧ fs.has ⟨source⟩ = true :=
      or_iff_right hmade
    rw [Option.none_or, recordOf?]
    simp only [hleaves, ite_and, ite_not]

/-- The sources in the cache are those of which the crawl made records, and those in the cache
before that were not visited and are still there. -/
theorem mem_sources_refresh_iff {source : String} :
    source ∈ (c.refresh fs o).records.map Record.source ↔
      source ∈ o.records.map Record.source ∨ source ∈ c.records.map Record.source ∧
        source ∉ o.visited ∧ fs.has ⟨source⟩ = true := by
  rw [sources_refresh, List.mem_append, List.mem_eraseDups, List.mem_filter, List.mem_filter,
    decide_eq_true_eq, decide_eq_true_eq, Leaves]
  by_cases hmade : source ∈ o.records.map Record.source
  · simp only [hmade, true_or, and_true, true_and]
    exact iff_true_intro (Decidable.em _)
  · simp only [hmade, false_or, false_and, or_false]

/-- A refresh leaves one record for each source. -/
theorem hasOneEach_refresh (hc : c.HasOneEach) (fs : FileSystem) (o : CrawlOutcome) :
    (c.refresh fs o).HasOneEach :=
  nodup_foldl_store o.records (hc.sublist (List.filter_sublist.map Record.source))

/-- The cache has the records of the crawl, and those of sources that were not visited and are still
there. -/
theorem mem_refresh_iff (hc : c.HasOneEach) (ho : (o.records.map Record.source).Nodup) :
    s ∈ (c.refresh fs o).records ↔
      s ∈ o.records ∨ s ∈ c.records ∧ s.source ∉ o.records.map Record.source ∧
        s.source ∉ o.visited ∧ fs.has ⟨s.source⟩ = true := by
  have hrecord : s ∈ (c.refresh fs o).records ↔ (c.refresh fs o).recordOf? s.source = some s :=
    Record.mem_iff_firstOf? (hasOneEach_refresh hc fs o)
  rw [hrecord, recordOf?_refresh, Record.lastOf?_eq_firstOf? ho, Record.mem_iff_firstOf? ho,
    Record.mem_iff_firstOf? hc, ← Record.firstOf?_eq_none_iff, recordOf?]
  cases firstOf? s.source o.records with
  | some r => simp
  | none =>
    by_cases hv : s.source ∈ o.visited
    · simp [hv]
    · simp [hv, and_comm]

end RecordCache

end ArchiveLabels
