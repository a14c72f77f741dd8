import ArchiveLabels.Proofs.Crawl.Snapshot

/-!
# One file among others

What a crawl makes of one file stays with this file. `Crawler.about_run_eq` : if two file systems
differ in one file, then crawls of them find the same in the same order in all files but this one,
and leave the same times of all files but this one.

One file may have many paths, by way of links or of `..`, and each of them has a key of its own in
the checkpoint; what is left out of the comparison are all paths that reach the file
(`FileSystem.avoids`). Those with its own key are not enough (`Crawler.about_run_ne`).

The proof leaves out the candidates that reach the file (`Crawler.yields_of_avoids`). They only touch
keys that no other candidate has, as paths of one key reach one place.
-/

namespace ArchiveLabels

open Label

variable {σ τ : Type} {fs gs : FileSystem} {place : List String} {p : Path} {k k' : Checkpoint}

/-! ## What is compared -/

/-- Entries stand in the order of their names, and names are such as paths may be made of. -/
structure FileSystem.WellFormed (fs : FileSystem) : Prop where
  ordered : fs.root.Ordered
  proper : fs.root.Proper
  here : fs.HasProperHere

/-- No path that reaches the place has the key. -/
def FileSystem.Foreign (fs gs : FileSystem) (place : List String) (key : List Component) : Prop :=
  ∀ p, fs.avoids gs place p = false → fs.key p ≠ key

/-- The checkpoints have the same times at the keys of which `P` holds. -/
def Checkpoint.AgreeOn (P : List Component → Prop) (k k' : Checkpoint) : Prop :=
  ∀ p : Path, P p.components →
    Table.get? Path.isLess p k.entries = Table.get? Path.isLess p k'.entries

namespace CrawlOutcome

/-- The items, the records and the visited paths of files with certain paths. -/
def about (keep : Path → Bool) (o : CrawlOutcome) :
    List CrawlItem × List Record × List String :=
  (o.items.filter fun item => keep ⟨item.source⟩, o.records.filter fun r => keep ⟨r.source⟩,
    o.visited.filter fun text => keep ⟨text⟩)

end CrawlOutcome

namespace Checkpoint

variable {P : List Component → Prop} {t : Timestamp}

theorem AgreeOn.refl (P : List Component → Prop) (k : Checkpoint) : AgreeOn P k k := fun _ _ => rfl

theorem AgreeOn.symm (h : AgreeOn P k k') : AgreeOn P k' k := fun p hp => (h p hp).symm

theorem AgreeOn.trans {k'' : Checkpoint} (h : AgreeOn P k k') (h' : AgreeOn P k' k'') :
    AgreeOn P k k'' := fun p hp => (h p hp).trans (h' p hp)

/-- Checkpoints that agree on a file have one time for it. -/
theorem AgreeOn.get?_eq (h : AgreeOn P k k') (hp : P (fs.key p)) :
    k.get? fs.workingDirectory p = k'.get? fs.workingDirectory p :=
  h (fs.absolute p) hp

/-- A time at a key of which `P` does not hold makes no difference. -/
theorem AgreeOn.put_left (h : AgreeOn P k k') (hp : ¬P (fs.key p)) :
    AgreeOn P (k.put fs.workingDirectory p t) k' := by
  intro q hq
  have hne : ¬q.rank = (Path.absolute fs.workingDirectory p).rank := by
    rw [Path.rank_eq_iff]
    intro he
    exact hp (show P (Path.absolute fs.workingDirectory p).components from he ▸ hq)
  rw [put, Table.get?_put Path.ranked, if_neg hne]
  exact h q hq

/-- A put keeps them in agreement. -/
theorem AgreeOn.put (h : AgreeOn P k k') :
    AgreeOn P (k.put fs.workingDirectory p t) (k'.put fs.workingDirectory p t) := by
  intro q hq
  rw [Checkpoint.put, Checkpoint.put, Table.get?_put Path.ranked, Table.get?_put Path.ranked, h q hq]

end Checkpoint

/-! ## Screening -/

namespace Screening

variable {P : List Component → Prop} (s : Screening)

/-- A candidate at a key at which checkpoints agree is screened alike, and they still agree. -/
theorem screen_of_agreeOn (h : k.AgreeOn P k') (hp : P (fs.key p)) :
    (s.screen fs p k).1 = (s.screen fs p k').1 ∧
      (s.screen fs p k).2.AgreeOn P (s.screen fs p k').2 := by
  rcases s.screen_cases fs p with ⟨a, ha⟩ | ⟨hi, t, ht⟩
  · rw [ha, ha]
    exact ⟨rfl, h⟩
  · rw [screen_of_modified hi ht, screen_of_modified hi ht, h.get?_eq hp]
    split
    · exact ⟨rfl, h⟩
    · exact ⟨rfl, h.put⟩

/-- A candidate at another key leaves the agreement as it is. -/
theorem agreeOn_screen_left (h : k.AgreeOn P k') (hp : ¬P (fs.key p)) :
    (s.screen fs p k).2.AgreeOn P k' := by
  rcases s.screen_cases fs p with ⟨a, ha⟩ | ⟨hi, t, ht⟩
  · rw [ha]
    exact h
  · rw [screen_of_modified hi ht]
    split
    · exact h
    · exact h.put_left hp

end Screening

namespace Crawler

variable {c : Crawler} {x y : Stop}

/-! ## What stops yield -/

/-- What a stop adds to the items, to the records and to the visited paths. -/
def yield (c : Crawler) (x : Stop) : Option CrawlItem × Option Record × Option String :=
  (c.item? x, c.record? x, c.visited? x)

/-- What a stop yields depends on its path, its admission and the working directory. -/
theorem yield_congr (hp : x.path = y.path) (hh : x.files.here = y.files.here)
    (ha : c.admission x = c.admission y) : c.yield x = c.yield y := by
  have hcwd := FileSystem.workingDirectory_congr hh
  simp only [yield, item?, record?, visited?, ha, hp, hcwd]

/-- What is kept by its path is what stops at the paths that are kept give. -/
theorem filter_filterMap_stops {β : Type} (keep : Path → Bool) {give : Stop → Option β}
    (source : β → String) (h : ∀ x b, give x = some b → source b = x.path.text) (xs : List Stop) :
    ((xs.filterMap give).filter fun b => keep ⟨source b⟩) =
      (xs.filter fun x => keep x.path).filterMap give := by
  induction xs with
  | nil => rfl
  | cons x xs ih =>
    cases hx : give x with
    | none =>
      rw [List.filterMap_cons_none hx, ih, List.filter_cons]
      split
      · rw [List.filterMap_cons_none hx]
      · rfl
    | some b =>
      have hk : keep ⟨source b⟩ = keep x.path := by rw [h x b hx]
      rw [List.filterMap_cons_some hx, List.filter_cons, List.filter_cons, hk, ih]
      split
      · rw [List.filterMap_cons_some hx]
      · rfl

/-- What is found in files with certain paths is a matter of what the stops there yield. -/
theorem about_outcomeOf (c : Crawler) (keep : Path → Bool) (xs : List Stop) :
    (c.outcomeOf xs).about keep =
      let ys := (xs.filter fun x => keep x.path).map c.yield
      (ys.filterMap fun y => y.1, ys.filterMap fun y => y.2.1, ys.filterMap fun y => y.2.2) := by
  have hitems := filter_filterMap_stops keep CrawlItem.source
    (fun _ _ => source_of_item? (c := c)) xs
  have hrecords := filter_filterMap_stops keep Record.source
    (fun _ _ => source_of_record? (c := c)) xs
  have hvisited := filter_filterMap_stops keep id (fun _ _ => text_of_visited? (c := c)) xs
  simp only [CrawlOutcome.about, outcomeOf, List.filterMap_map]
  exact Prod.ext hitems (Prod.ext hrecords hvisited)

/-! ## Candidates that are left out -/

/-- The candidates that are not kept may be left out, if their keys are others than those of the
candidates that are : what is yielded at the others is the same, and so is what is known of them, be
it in a file system that has only these in common. -/
theorem yields_of_avoids (c : Crawler) (keep : Path → Bool) {P : List Component → Prop}
    {ps : List Path} (hh : gs.here = fs.here)
    (hkeep : ∀ p ∈ ps, keep p = true → gs.entry? p = fs.entry? p ∧ P (fs.key p))
    (hdrop : ∀ p, keep p = false → ¬P (fs.key p)) (h : k.AgreeOn P k') :
    ((c.stopsIn fs k ps).filter fun x => keep x.path).map c.yield =
        (c.stopsIn gs k' (ps.filter keep)).map c.yield ∧
      (c.knownThrough k (c.stopsIn fs k ps)).AgreeOn P
        (c.knownThrough k' (c.stopsIn gs k' (ps.filter keep))) := by
  induction ps generalizing k k' with
  | nil => exact ⟨rfl, h⟩
  | cons p ps ih =>
    have hrest := fun q hq => hkeep q (List.mem_cons_of_mem p hq)
    cases hp : keep p with
    | false =>
      rw [List.filter_cons_of_neg (by simp [hp]), stopsIn, List.filter_cons_of_neg (by simp [hp])]
      exact ih hrest (c.screening.agreeOn_screen_left h (hdrop p hp))
    | true =>
      obtain ⟨he, hkey⟩ := hkeep p List.mem_cons_self hp
      obtain ⟨hadmission, hknown⟩ := c.screening.screen_of_agreeOn h hkey
      have hread : gs.read p = fs.read p := by rw [FileSystem.read, FileSystem.read, he]
      have htime : gs.modified p = fs.modified p := by
        rw [FileSystem.modified, FileSystem.modified, he]
      rw [← c.screening.screen_congr hh hread htime k'] at hadmission hknown
      rw [List.filter_cons_of_pos hp, stopsIn, stopsIn,
        List.filter_cons_of_pos (p := fun x : Stop => keep x.path) hp, List.map_cons, List.map_cons,
        yield_congr (x := ⟨p, fs, k⟩) (y := ⟨p, gs, k'⟩) rfl hh.symm hadmission]
      obtain ⟨hyields, hk⟩ := ih hrest hknown
      exact ⟨congrArg _ hyields, hk⟩

/-! ## Two crawls -/

/-- A candidate that does not reach the file in which two file systems differ leads to the same in
both, and no path that reaches the file has its key. -/
theorem of_avoids (h : fs.DiffersOnlyAt place gs) (hfs : fs.WellFormed) (hgs : gs.WellFormed)
    (hp : p ∈ c.candidates fs) (ha : fs.avoids gs place p = true) :
    gs.entry? p = fs.entry? p ∧ fs.Foreign gs place (fs.key p) := by
  obtain ⟨target, -, hp⟩ := List.mem_flatMap.mp hp
  cases hps : fs.candidates c.filters target.2 target.1 with
  | error e => simp [hps] at hp
  | ok ps =>
    rw [hps] at hp
    obtain ⟨q, content, t, hr, hat⟩ :=
      (FileSystem.of_mem_candidates hps hp).2 hfs.ordered hfs.proper
    obtain ⟨n, hn⟩ := Dialect.exists_fileName (FileSystem.ofPath?_of_mem_candidates hps hp)
    have htext := Path.text_ne_of_fileName? hn
    have hq : q ≠ place := by
      rintro rfl
      simp [FileSystem.avoids, hr] at ha
    refine ⟨h.entry?_eq hq hr hat, fun p' hp' hkey => hq ?_⟩
    rw [FileSystem.avoids, Bool.and_eq_false_iff, Bool.not_eq_false', Bool.not_eq_false'] at hp'
    rcases hp' with hp' | hp'
    · exact (FileSystem.eq_of_reaches_of_components_eq hfs.here htext hp' hr hkey).symm
    · have hkey' : (gs.absolute p').components = (gs.absolute p).components := by
        rwa [FileSystem.absolute, FileSystem.absolute, FileSystem.workingDirectory_congr h.here]
      exact (FileSystem.eq_of_reaches_of_components_eq hgs.here htext hp' (h.reaches hq hr)
        hkey').symm

/-- Two file systems that differ in one file have the same candidates in the same order, but for
those whose paths reach this file. -/
theorem filter_candidates_eq (h : fs.DiffersOnlyAt place gs) (hfs : fs.WellFormed)
    (hgs : gs.WellFormed)
    (hc : ∀ target ∈ c.targets, ∃ ps, fs.candidates c.filters target.2 target.1 = .ok ps)
    (hc' : ∀ target ∈ c.targets, ∃ ps, gs.candidates c.filters target.2 target.1 = .ok ps) :
    (c.candidates gs).filter (fs.avoids gs place) =
      (c.candidates fs).filter (fs.avoids gs place) := by
  unfold candidates
  rw [List.filter_flatMap, List.filter_flatMap, List.flatMap_def, List.flatMap_def]
  refine congrArg List.flatten (List.map_congr_left fun target ht => ?_)
  obtain ⟨ps, hps⟩ := hc target ht
  obtain ⟨qs, hqs⟩ := hc' target ht
  rw [hps, hqs]
  exact FileSystem.filter_candidates_eq h hfs.ordered hgs.ordered hfs.proper hgs.proper hps hqs

/-- Crawls of two file systems that differ in one file, from one checkpoint : but for the paths that
reach this file, they have the same items, records and visited paths in the same order, and the
checkpoints they leave have the same times at all keys. -/
theorem about_run_eq (c : Crawler) (fs gs : FileSystem) (place : List String)
    (h : fs.DiffersOnlyAt place gs) (hfs : fs.WellFormed) (hgs : gs.WellFormed) (sink : Sink σ)
    (sink' : Sink τ) (hfiles : ∀ s, sink.files s = fs) (hfiles' : ∀ s, sink'.files s = gs) (s : σ)
    (s' : τ) (k : Checkpoint) (q : CrawlProgress σ) (q' : CrawlProgress τ)
    (hq : c.run sink s k = .ok q) (hq' : c.run sink' s' k = .ok q') :
    q.outcome.about (fs.avoids gs place) = q'.outcome.about (fs.avoids gs place) ∧
      q.checkpoint.AgreeOn (fs.Foreign gs place) q'.checkpoint := by
  have hkey (p : Path) : gs.key p = fs.key p := by
    unfold FileSystem.key FileSystem.absolute
    rw [FileSystem.workingDirectory_congr h.here]
  have hdrop (p : Path) (hp : fs.avoids gs place p = false) : ¬fs.Foreign gs place (fs.key p) :=
    fun hforeign => hforeign p hp rfl
  have hcandidates := filter_candidates_eq h hfs hgs (candidates_of_run hfiles hq)
    (candidates_of_run hfiles' hq')
  -- Both are compared with a crawl of the second file system that leaves out the file.
  have hkeep : ∀ p ∈ c.candidates fs, fs.avoids gs place p = true →
      gs.entry? p = fs.entry? p ∧ fs.Foreign gs place (fs.key p) :=
    fun p hp ha => of_avoids h hfs hgs hp ha
  have hkeep' : ∀ p ∈ c.candidates gs, fs.avoids gs place p = true →
      gs.entry? p = gs.entry? p ∧ fs.Foreign gs place (gs.key p) := by
    intro p hp ha
    have hmem := List.mem_filter.mpr ⟨hp, ha⟩
    rw [hcandidates] at hmem
    exact ⟨rfl, hkey p ▸ (hkeep p (List.mem_of_mem_filter hmem) ha).2⟩
  have hdrop' (p : Path) (hp : fs.avoids gs place p = false) : ¬fs.Foreign gs place (gs.key p) :=
    hkey p ▸ hdrop p hp
  obtain ⟨hy, hk⟩ := yields_of_avoids c _ h.here hkeep hdrop (.refl _ k)
  obtain ⟨hy', hk'⟩ := yields_of_avoids c _ rfl hkeep' hdrop' (.refl _ k)
  rw [hcandidates] at hy' hk'
  rw [outcome_of_run hq, outcome_of_run hq', (gives_of_run hq).checkpoint,
    (gives_of_run hq').checkpoint, stops_eq_stopsIn hfiles hq, stops_eq_stopsIn hfiles' hq',
    about_outcomeOf, about_outcomeOf, hy, hy']
  exact ⟨rfl, hk.trans hk'.symm⟩

/-! ## One file of two -/

/-- Two catalog files in a directory, the first with the given bytes. -/
def pairFiles (first : String) (t : Timestamp) : FileSystem where
  root :=
    .entry "c" (.directory
      (.entry "a.cat" (.file (Text.Utf8.encode first) t)
        (.entry "b.cat" (.file (Text.Utf8.encode missionLabel) ⟨1, 0⟩) .empty))) .empty
  here := []
  clock := t.next
  printed := ""

/-- A crawler that comes to the files of a directory twice, the second time by way of `..`. -/
def detourCrawler : Crawler :=
  { catalogCrawler with
    targets := [(⟨"c"⟩, .legacy), (⟨"c/../c"⟩, .legacy)]
    incremental := false }

theorem differsOnlyAt_pairFiles (first second : String) (t u : Timestamp) :
    (pairFiles first t).DiffersOnlyAt ["a.cat", "c"] (pairFiles second u) :=
  have hputs : FileSystem.Puts (pairFiles first t) (pairFiles second u) ["a.cat", "c"]
      (Text.Utf8.encode second) u :=
    FileSystem.puts_change rfl rfl rfl rfl (.inr ⟨_, _, rfl⟩)
  hputs.differsOnlyAt

theorem wellFormed_pairFiles (first : String) (t : Timestamp) : (pairFiles first t).WellFormed where
  ordered := by
    refine ⟨⟨trivial, fun other f h => ?_, trivial, by simp [Directory.get?], trivial⟩,
      by simp [Directory.get?], trivial⟩
    rw [Directory.get?] at h
    split at h
    · subst_vars
      decide
    · simp [Directory.get?] at h
  proper := by
    simp [pairFiles, Directory.Proper, Entry.Proper, Component.Inner, FileSystem.longestName]
    decide +kernel
  here := by simp [FileSystem.HasProperHere, pairFiles]

/-- Two files with whole labels. -/
def wholePair : FileSystem := pairFiles missionLabel ⟨1, 0⟩

/-- The same files when a label that is cut off has been written over the first. -/
def brokenPair : FileSystem := pairFiles "OBJECT = MISSION\n" ⟨2, 0⟩

set_option maxRecDepth 100000 in
/-- When a label is cut off, the file next to it is found as before, by way of `..` too. -/
theorem about_run_eq_pair :
    ∃ q q', detourCrawler.run (.keeping wholePair) [] .empty = .ok q ∧
      detourCrawler.run (.keeping brokenPair) [] .empty = .ok q' ∧
      (q'.outcome.about (wholePair.avoids brokenPair ["a.cat", "c"])).2.2 =
        ["c/b.cat", "c/../c/b.cat"] ∧
      q.outcome.about (wholePair.avoids brokenPair ["a.cat", "c"]) =
        q'.outcome.about (wholePair.avoids brokenPair ["a.cat", "c"]) ∧
      q.checkpoint.AgreeOn (wholePair.Foreign brokenPair ["a.cat", "c"]) q'.checkpoint := by
  have hok : (detourCrawler.run (.keeping wholePair) [] .empty).toOption.isSome := by
    decide +kernel
  have hvisited : (detourCrawler.run (.keeping brokenPair) [] .empty).toOption.map
      (fun q => (q.outcome.about (wholePair.avoids brokenPair ["a.cat", "c"])).2.2) =
        some ["c/b.cat", "c/../c/b.cat"] := by
    decide +kernel
  cases hq : detourCrawler.run (.keeping wholePair) [] .empty with
  | error e =>
    rw [hq] at hok
    cases hok
  | ok q =>
    cases hq' : detourCrawler.run (.keeping brokenPair) [] .empty with
    | error e =>
      rw [hq'] at hvisited
      cases hvisited
    | ok q' =>
      rw [hq'] at hvisited
      exact ⟨q, q', rfl, rfl, Option.some.inj hvisited, about_run_eq detourCrawler wholePair
        brokenPair ["a.cat", "c"] (differsOnlyAt_pairFiles _ _ _ _) (wellFormed_pairFiles _ _)
        (wellFormed_pairFiles _ _) (.keeping wholePair) (.keeping brokenPair) (fun _ => rfl)
        (fun _ => rfl) [] [] .empty q q' hq hq'⟩

set_option maxRecDepth 100000 in
/-- What is found in the file by way of `..` has another key than its path, and is not the same. -/
theorem about_run_ne :
    ¬∀ (c : Crawler) (fs gs : FileSystem) (p : Path) (place : List String),
      fs.reaches place p = true → fs.DiffersOnlyAt place gs → fs.WellFormed → gs.WellFormed →
        ∀ q q', c.run (.keeping fs) [] .empty = .ok q → c.run (.keeping gs) [] .empty = .ok q' →
          q.outcome.about (fun r => fs.key r ≠ fs.key p) =
            q'.outcome.about (fun r => fs.key r ≠ fs.key p) := by
  intro h
  have hsources : (detourCrawler.run (.keeping wholePair) [] .empty).toOption.map
      (fun q => (q.outcome.about fun r => wholePair.key r ≠ wholePair.key ⟨"c/a.cat"⟩).2.1.map
        Record.source) = some ["c/b.cat", "c/../c/a.cat", "c/../c/b.cat"] := by
    decide +kernel
  have hsources' : (detourCrawler.run (.keeping brokenPair) [] .empty).toOption.map
      (fun q => (q.outcome.about fun r => wholePair.key r ≠ wholePair.key ⟨"c/a.cat"⟩).2.1.map
        Record.source) = some ["c/b.cat", "c/../c/b.cat"] := by
    decide +kernel
  cases hq : detourCrawler.run (.keeping wholePair) [] .empty with
  | error e =>
    rw [hq] at hsources
    cases hsources
  | ok q =>
    cases hq' : detourCrawler.run (.keeping brokenPair) [] .empty with
    | error e =>
      rw [hq'] at hsources'
      cases hsources'
    | ok q' =>
      have habout := h detourCrawler wholePair brokenPair ⟨"c/a.cat"⟩ ["a.cat", "c"]
        (by decide +kernel) (differsOnlyAt_pairFiles _ _ _ _) (wellFormed_pairFiles _ _)
        (wellFormed_pairFiles _ _) q q' hq hq'
      rw [hq] at hsources
      rw [hq'] at hsources'
      have hsame := congrArg (fun o => o.2.1.map Record.source) habout
      have hnot := (Option.some.inj hsources).symm.trans (hsame.trans (Option.some.inj hsources'))
      exact absurd hnot (by decide)

end Crawler

end ArchiveLabels
