import ArchiveLabels.Proofs.Crawl.Snapshot

/-!
# The order of the roots

Roots may overlap, so that which of them a file is visited under is a matter of their order : an
incremental crawl passes over it under the later ones. `Screening.screen_swap` : of two candidates
that are screened one after the other, it does not matter which one is first, be it that neither
makes a difference to the other, or that they are one file and change places. So the candidates may
come in any order (`Crawler.reorders_of_perm`), and with them the roots (`Crawler.run_perm`).
-/

namespace ArchiveLabels

open Label

variable {σ : Type} {fs : FileSystem} {p q : Path}

/-! ## Two candidates -/

/-- Two candidates may be screened in either order : the times that are known behind them are the
same, and each is admitted as it is in the other order, or they are two spellings of one file and
each is admitted as the other one is in the other order. -/
theorem Screening.screen_swap (s : Screening) (hh : fs.HasProperHere) {d e : Dialect}
    (hd : Dialect.ofPath? p = some d) (he : Dialect.ofPath? q = some e) (k : Checkpoint) :
    (s.screen fs q (s.screen fs p k).2).2 = (s.screen fs p (s.screen fs q k).2).2 ∧
      ((s.screen fs p k).1 = (s.screen fs p (s.screen fs q k).2).1 ∧
          (s.screen fs q (s.screen fs p k).2).1 = (s.screen fs q k).1 ∨
        fs.absolute p = fs.absolute q ∧ (s.screen fs p k).1 = (s.screen fs q k).1 ∧
          (s.screen fs q (s.screen fs p k).2).1 = (s.screen fs p (s.screen fs q k).2).1) := by
  rcases s.screen_cases fs p with ⟨a, ha⟩ | ⟨hi, t, ht⟩
  · simp [ha]
  rcases s.screen_cases fs q with ⟨b, hb⟩ | ⟨-, u, hu⟩
  · simp [hb]
  simp only [screen_of_modified hi ht, screen_of_modified hi hu]
  by_cases hkey : fs.key p = fs.key q
  · -- One file : whichever spelling comes first, its time is known when the other one comes.
    obtain rfl := FileSystem.time_eq_of_key_eq hh ht hu hkey
    obtain ⟨m, hm⟩ := Dialect.exists_fileName hd
    obtain ⟨n, hn⟩ := Dialect.exists_fileName he
    have habsolute := FileSystem.absolute_eq_of_key_eq hh (Path.text_ne_of_fileName? hm)
      (Path.text_ne_of_fileName? hn) hkey
    have hput : k.put fs.workingDirectory p t = k.put fs.workingDirectory q t :=
      congrArg (fun r => Checkpoint.mk (k.entries.put Path.isLess r t)) habsolute
    have hjudge := s.judge_eq_of_key_eq hh hd he (FileSystem.has_iff_modified.mpr ⟨t, ht⟩)
      (FileSystem.has_iff_modified.mpr ⟨t, hu⟩) hkey
    rw [k.get?_eq_of_key_eq hkey, hput, hjudge]
    by_cases hk : k.get? fs.workingDirectory q = some t
    · simp [hk, k.get?_eq_of_key_eq hkey]
    · simp [hk, Checkpoint.get?_put, hkey, habsolute]
  · have hkey' : ¬fs.key q = fs.key p := fun h => hkey h.symm
    have hp (v : Timestamp) : (k.put fs.workingDirectory q v).get? fs.workingDirectory p =
        k.get? fs.workingDirectory p := by
      rw [Checkpoint.get?_put, if_neg hkey]
    have hq (v : Timestamp) : (k.put fs.workingDirectory p v).get? fs.workingDirectory q =
        k.get? fs.workingDirectory q := by
      rw [Checkpoint.get?_put, if_neg hkey']
    by_cases hkp : k.get? fs.workingDirectory p = some t
    · by_cases hkq : k.get? fs.workingDirectory q = some u
      · simp [hkp, hkq]
      · simp [hkp, hkq, hp]
    · by_cases hkq : k.get? fs.workingDirectory q = some u
      · simp [hkp, hkq, hq]
      · simp [hkp, hkq, hp, hq, k.put_put_comm t u hkey]

/-! ## Outcomes -/

/-- The counts are the same, and so are the files visited, each as often, in whatever order. -/
structure CrawlOutcome.Reorders (fs : FileSystem) (o o' : CrawlOutcome) : Prop where
  statistics : o.statistics = o'.statistics
  visited : (o.visited.map fun text => fs.absolute ⟨text⟩).Perm
    (o'.visited.map fun text => fs.absolute ⟨text⟩)

namespace CrawlOutcome

variable {o o' o'' r r' : CrawlOutcome}

theorem Reorders.refl (fs : FileSystem) (o : CrawlOutcome) : Reorders fs o o := ⟨rfl, .refl _⟩

theorem Reorders.trans (h : Reorders fs o o') (h' : Reorders fs o' o'') : Reorders fs o o'' :=
  ⟨h.statistics.trans h'.statistics, h.visited.trans h'.visited⟩

/-- Outcomes merged stay reorderings when their parts are. -/
theorem Reorders.merge (h : Reorders fs o o') (h' : Reorders fs r r') :
    Reorders fs (o.merge r) (o'.merge r') where
  statistics := by rw [CrawlOutcome.merge, CrawlOutcome.merge, h.statistics, h'.statistics]
  visited := by
    simp only [CrawlOutcome.merge, List.map_append]
    exact h.visited.append h'.visited

/-- Merging either way round gives a reordering. -/
theorem reorders_merge_comm (fs : FileSystem) (o o' : CrawlOutcome) :
    Reorders fs (o.merge o') (o'.merge o) where
  statistics := Statistics.add_comm _ _
  visited := by
    simp only [CrawlOutcome.merge, List.map_append]
    exact List.perm_append_comm

end CrawlOutcome

namespace Crawler

open CrawlOutcome (Reorders)

variable {c : Crawler} {sink : Sink σ} {s : σ} {k : Checkpoint} {x y : Stop} {ps qs : List Path}

/-- What is admitted alike, under two spellings of one path, counts alike. -/
theorem reorders_of_admission {k' : Checkpoint}
    (ha : (c.screening.screen fs p k).1 = (c.screening.screen fs q k').1)
    (hp : fs.absolute p = fs.absolute q) :
    Reorders fs (c.outcomeOf [⟨p, fs, k⟩]) (c.outcomeOf [⟨q, fs, k'⟩]) where
  statistics := by simp [outcomeOf, admission, ha]
  visited := by
    cases hs : (c.screening.screen fs q k').1.isSuppressed with
    | true => simp [outcomeOf, visited?, admission, ha, hs]
    | false => simp [outcomeOf, visited?, admission, ha, hs, hp]

theorem knownThrough_cons (c : Crawler) (x : Stop) (xs : List Stop) (k : Checkpoint) :
    c.knownThrough k (x :: xs) = c.knownThrough (c.screening.screen x.files x.path k).2 xs := rfl

theorem outcomeOf_cons₂ (c : Crawler) (x y : Stop) (xs : List Stop) :
    c.outcomeOf (x :: y :: xs) = ((c.outcomeOf [x]).merge (c.outcomeOf [y])).merge (c.outcomeOf xs) := by
  rw [← outcomeOf_append, ← outcomeOf_append]
  rfl

/-- Two candidates in front of others may change places. -/
theorem reorders_swap (hh : fs.HasProperHere) {d e : Dialect} (hd : Dialect.ofPath? p = some d)
    (he : Dialect.ofPath? q = some e) (k : Checkpoint) (ps : List Path) :
    Reorders fs (c.outcomeOf (c.stopsIn fs k (q :: p :: ps)))
        (c.outcomeOf (c.stopsIn fs k (p :: q :: ps))) ∧
      c.knownThrough k (c.stopsIn fs k (q :: p :: ps)) =
        c.knownThrough k (c.stopsIn fs k (p :: q :: ps)) := by
  obtain ⟨hknown, hadmitted⟩ := c.screening.screen_swap hh he hd k
  simp only [stopsIn, knownThrough_cons, hknown]
  refine ⟨?_, trivial⟩
  rw [outcomeOf_cons₂, outcomeOf_cons₂ c ⟨p, fs, k⟩]
  refine Reorders.merge ?_ (.refl fs _)
  rcases hadmitted with ⟨hq, hp⟩ | ⟨habsolute, hfirst, hsecond⟩
  · exact (CrawlOutcome.reorders_merge_comm fs _ _).trans
      ((reorders_of_admission hp rfl).merge (reorders_of_admission hq rfl))
  · exact (reorders_of_admission hfirst habsolute).merge
      (reorders_of_admission hsecond habsolute.symm)

/-- Candidates may come in any order. -/
theorem reorders_of_perm (hh : fs.HasProperHere) (h : ps.Perm qs)
    (hd : ∀ p ∈ ps, ∃ d, Dialect.ofPath? p = some d) (k : Checkpoint) :
    Reorders fs (c.outcomeOf (c.stopsIn fs k ps)) (c.outcomeOf (c.stopsIn fs k qs)) ∧
      c.knownThrough k (c.stopsIn fs k ps) = c.knownThrough k (c.stopsIn fs k qs) := by
  induction h generalizing k with
  | nil => exact ⟨.refl fs _, rfl⟩
  | cons p h ih =>
    obtain ⟨ho, hk⟩ := ih (fun q hq => hd q (List.mem_cons_of_mem p hq))
      (c.screening.screen fs p k).2
    refine ⟨?_, hk⟩
    rw [stopsIn, stopsIn, outcomeOf_cons, outcomeOf_cons c _ (c.stopsIn fs _ _)]
    exact (Reorders.refl fs _).merge ho
  | swap p q ps =>
    obtain ⟨d, hq⟩ := hd q List.mem_cons_self
    obtain ⟨e, hp⟩ := hd p (List.mem_cons_of_mem q List.mem_cons_self)
    exact reorders_swap hh hp hq k ps
  | trans h h' ih ih' =>
    obtain ⟨ho, hk⟩ := ih hd k
    obtain ⟨ho', hk'⟩ := ih' (fun p hp => hd p (h.mem_iff.mpr hp)) k
    exact ⟨ho.trans ho', hk.trans hk'⟩

/-- Each candidate has an extension that stands for a dialect. -/
theorem exists_dialect_of_mem_candidates (hp : p ∈ c.candidates fs) :
    ∃ d, Dialect.ofPath? p = some d := by
  obtain ⟨target, -, hp⟩ := List.mem_flatMap.mp hp
  cases hps : fs.candidates c.filters target.2 target.1 with
  | error e => simp [hps] at hp
  | ok ps => exact ⟨target.2, FileSystem.ofPath?_of_mem_candidates hps (by simpa [hps] using hp)⟩

/-! ## All roots -/

/-- The stops at candidates are a matter of the candidates, not of the roots they stand below. -/
theorem stopsIn_of_targets (c : Crawler) (targets : List (Path × Dialect)) (fs : FileSystem)
    (k : Checkpoint) (ps : List Path) :
    { c with targets }.stopsIn fs k ps = c.stopsIn fs k ps := by
  induction ps generalizing k with
  | nil => rfl
  | cons p ps ih =>
    rw [stopsIn, ih]
    rfl

/-- The order of the roots makes no difference to whether a crawl succeeds, to its counts, to which
files it visits and how often, and to the checkpoint that it leaves, as long as its sink takes all
records and leaves the files alone. -/
theorem run_perm (c : Crawler) (targets : List (Path × Dialect)) (h : c.targets.Perm targets)
    (fs : FileSystem) (hh : fs.HasProperHere) (sink : Sink σ) (hfiles : ∀ s, sink.files s = fs)
    (haccept : ∀ r s, ∃ s', sink.accept r s = .ok s') (s : σ) (k : Checkpoint) :
    ((∃ q, c.run sink s k = .ok q) ↔ ∃ q, { c with targets }.run sink s k = .ok q) ∧
      ∀ q q', c.run sink s k = .ok q → { c with targets }.run sink s k = .ok q' →
        Reorders fs q.outcome q'.outcome ∧ q.checkpoint = q'.checkpoint := by
  refine ⟨?_, fun q q' hq hq' => ?_⟩
  · have haccept' : ∀ r s, True → ∃ s', sink.accept r s = .ok s' ∧ True := by simpa using haccept
    have halike : ∀ s, True → FileSystem.Alike fs (sink.files s) := fun s _ => by
      rw [hfiles]
      exact .refl fs
    rw [exists_run_iff haccept' halike trivial, exists_run_iff haccept' halike trivial]
    exact forall_congr' fun target => imp_congr_left h.mem_iff
  · have hperm : (c.candidates fs).Perm ({ c with targets }.candidates fs) := h.flatMap_right _
    obtain ⟨ho, hk⟩ := reorders_of_perm (c := c) hh hperm
      (fun p hp => exists_dialect_of_mem_candidates hp) k
    have hstops := stops_eq_stopsIn hfiles hq
    have hstops' := stops_eq_stopsIn hfiles hq'
    rw [stopsIn_of_targets] at hstops'
    rw [outcome_of_run hq, outcome_of_run hq', (gives_of_run hq).checkpoint,
      (gives_of_run hq').checkpoint, hstops, hstops']
    exact ⟨ho, hk⟩

set_option maxRecDepth 100000 in
/-- The catalog file is visited under the root that comes first, and counts alike. -/
theorem run_perm_catalog :
    ∃ q q', catalogCrawler.run (.keeping catalogFiles) [] .empty = .ok q ∧
      { catalogCrawler with targets := catalogCrawler.targets.reverse }.run (.keeping catalogFiles) []
        .empty = .ok q' ∧
      q.outcome.visited = ["c/a.cat"] ∧ q'.outcome.visited = ["/./c/a.cat"] ∧
      Reorders catalogFiles q.outcome q'.outcome ∧ q.checkpoint = q'.checkpoint := by
  obtain ⟨hiff, heq⟩ := run_perm catalogCrawler _ catalogCrawler.targets.reverse_perm.symm
    catalogFiles (by simp [FileSystem.HasProperHere, catalogFiles]) (.keeping catalogFiles)
    (fun _ => rfl) (fun _ _ => ⟨_, rfl⟩) [] .empty
  have hvisited : (catalogCrawler.run (.keeping catalogFiles) [] .empty).toOption.map
      (fun q => q.outcome.visited) = some ["c/a.cat"] := by
    decide +kernel
  have hvisited' : ({ catalogCrawler with targets := catalogCrawler.targets.reverse }.run
      (.keeping catalogFiles) [] .empty).toOption.map
      (fun q : CrawlProgress (List Record) => q.outcome.visited) = some ["/./c/a.cat"] := by
    decide +kernel
  cases hq : catalogCrawler.run (.keeping catalogFiles) [] .empty with
  | error f =>
    rw [hq] at hvisited
    cases hvisited
  | ok q =>
    obtain ⟨q', hq'⟩ := hiff.mp ⟨q, hq⟩
    rw [hq] at hvisited
    rw [hq'] at hvisited'
    exact ⟨q, q', rfl, hq', Option.some.inj hvisited, Option.some.inj hvisited', heq q q' hq hq'⟩

end Crawler

end ArchiveLabels
