import ArchiveLabels.Crawl.Crawler

/-!
# The tour of a crawl

A crawl goes to its roots in turn, and below each to the candidates that stand there when the root
is entered. `Crawler.tour` lists the roots it comes to, each a `Leg` with its stops; a crawl that
fails makes the stops up to the failure.

What a crawl gives is what its stops give one by one : `Crawler.visit_eq` says it of one stop, and
`Crawler.outcome_of_run` of a successful run. `Crawler.acceptAll_tour` says of every run, failed
or not, that the sink was given the records of the stops, in order and nothing else.
-/

namespace ArchiveLabels

open Label

variable {σ : Type}

/-- A candidate that a crawl comes to, and how things stand then. -/
structure Stop where
  /-- The candidate. -/
  path : Path
  /-- The files. -/
  files : FileSystem
  /-- The times of files that are known. -/
  known : Checkpoint

/-- A root that a crawl comes to. -/
structure Leg where
  /-- The root, with the dialect of the labels to look for. -/
  target : Path × Dialect
  /-- The files when the root is entered. -/
  files : FileSystem
  /-- The stops made below the root. -/
  stops : List Stop

/-- What the sink makes of records that are handed on to it in order. -/
def Sink.acceptAll (sink : Sink σ) (rs : List Record) (s : σ) :
    Except (FileError × σ) σ :=
  rs.foldlM (fun s r => sink.accept r s) s

/-- Records are accepted one batch after the other. -/
theorem Sink.acceptAll_append (sink : Sink σ) (rs qs : List Record) (s : σ) :
    sink.acceptAll (rs ++ qs) s = (sink.acceptAll rs s).bind (sink.acceptAll qs) :=
  List.foldlM_append

theorem Sink.acceptAll_append_eq_ok_iff {sink : Sink σ} {rs qs : List Record} {s s' : σ} :
    sink.acceptAll (rs ++ qs) s = .ok s' ↔
      ∃ s₁, sink.acceptAll rs s = .ok s₁ ∧ sink.acceptAll qs s₁ = .ok s' := by
  rw [acceptAll_append]
  cases sink.acceptAll rs s <;> simp [Except.bind]

/-- What has become of the sink when a crawl is over : its state, or its error with the state that
this left. -/
def sinkAfter : Except (CrawlFailure σ) (CrawlProgress σ) → Except (FileError × σ) σ
  | .ok r => .ok r.sink
  | .error ⟨.output e, s⟩ => .error (e, s)
  | .error ⟨_, s⟩ => .ok s

namespace CrawlOutcome

/-- What two parts of a crawl found together. -/
def merge (o q : CrawlOutcome) : CrawlOutcome :=
  ⟨o.items ++ q.items, o.records ++ q.records, o.visited ++ q.visited, o.statistics + q.statistics⟩

end CrawlOutcome

namespace Crawler

/-! ## What a stop gives -/

/-- What becomes of the candidate. -/
def admission (c : Crawler) (x : Stop) : Admission :=
  (c.screening.screen x.files x.path x.known).1

/-- The times of files that are known behind the stop. -/
def knownAfter (c : Crawler) (x : Stop) : Checkpoint :=
  (c.screening.screen x.files x.path x.known).2

/-- What is found in the candidate. -/
def item? (c : Crawler) (x : Stop) : Option CrawlItem :=
  match c.admission x with
  | .good t => some (c.process x.files.workingDirectory x.path t).1
  | .bad e => some (badItem x.path e)
  | _ => none

/-- The record made of the candidate. -/
def record? (c : Crawler) (x : Stop) : Option Record :=
  match c.admission x with
  | .good t => (c.process x.files.workingDirectory x.path t).2
  | _ => none

/-- The candidate, unless it is passed over in silence. -/
def visited? (c : Crawler) (x : Stop) : Option String :=
  if (c.admission x).isSuppressed then none else some x.path.text

/-- What is found at stops. -/
def outcomeOf (c : Crawler) (xs : List Stop) : CrawlOutcome where
  items := xs.filterMap c.item?
  records := xs.filterMap c.record?
  visited := xs.filterMap c.visited?
  statistics := .sum (xs.map fun x => (c.admission x).count .zero)

/-- The times of files that are known behind stops. -/
def knownThrough (c : Crawler) (k : Checkpoint) (xs : List Stop) : Checkpoint :=
  xs.foldl (fun k x => (c.screening.screen x.files x.path k).2) k

/-! ## The stops of a run -/

/-- The stop at a candidate. -/
def stopAt (sink : Sink σ) (r : CrawlProgress σ) (p : Path) : Stop :=
  ⟨p, sink.files r.sink, r.checkpoint⟩

/-- The stops at candidates in turn. -/
def stopsAlong (c : Crawler) (sink : Sink σ) : CrawlProgress σ → List Path → List Stop
  | _, [] => []
  | r, p :: ps =>
    stopAt sink r p ::
      match c.visit sink r p with
      | .ok q => c.stopsAlong sink q ps
      | .error _ => []

/-- The stops below a root. -/
def leg (c : Crawler) (sink : Sink σ) (r : CrawlProgress σ) (target : Path × Dialect) : Leg where
  target := target
  files := sink.files r.sink
  stops :=
    match (sink.files r.sink).candidates c.filters target.2 target.1 with
    | .ok ps => c.stopsAlong sink r ps
    | .error _ => []

/-- The roots that are come to in turn. -/
def legs (c : Crawler) (sink : Sink σ) : CrawlProgress σ → List (Path × Dialect) → List Leg
  | _, [] => []
  | r, target :: targets =>
    c.leg sink r target ::
      match c.crawlRoot sink r target with
      | .ok q => c.legs sink q targets
      | .error _ => []

/-- The roots that a run comes to. -/
def tour (c : Crawler) (sink : Sink σ) (s : σ) (k : Checkpoint) : List Leg :=
  c.legs sink ⟨.empty, k, s⟩ c.targets

/-- The stops of a run. -/
def stops (c : Crawler) (sink : Sink σ) (s : σ) (k : Checkpoint) : List Stop :=
  (c.tour sink s k).flatMap Leg.stops

/-! ## One stop -/

theorem outcomeOf_nil (c : Crawler) : c.outcomeOf [] = .empty := rfl

/-- The outcome of stops in a row is merged from the outcomes. -/
theorem outcomeOf_append (c : Crawler) (xs ys : List Stop) :
    c.outcomeOf (xs ++ ys) = (c.outcomeOf xs).merge (c.outcomeOf ys) := by
  simp only [outcomeOf, CrawlOutcome.merge, List.filterMap_append, List.map_append,
    Statistics.sum_append]

/-- What a stop gives stands in front of what the stops behind it give. -/
theorem filterMap_cons_stop {β : Type} (f : Stop → Option β) (x : Stop) (xs : List Stop) :
    (x :: xs).filterMap f = (f x).toList ++ xs.filterMap f := by
  cases h : f x <;> simp [h]

/-- A visit adds what its stop gives, and hands on the record of the stop, if there is one. -/
theorem visit_eq (c : Crawler) (sink : Sink σ) (r : CrawlProgress σ) (p : Path) :
    c.visit sink r p =
      match sink.acceptAll (c.record? (stopAt sink r p)).toList r.sink with
      | .ok s =>
        .ok ⟨r.outcome.merge (c.outcomeOf [stopAt sink r p]), c.knownAfter (stopAt sink r p), s⟩
      | .error (e, s) => .error ⟨.output e, s⟩ := by
  obtain ⟨a, k, ha⟩ : ∃ a k, c.screening.screen (sink.files r.sink) p r.checkpoint = (a, k) :=
    ⟨_, _, rfl⟩
  have hs (b : Admission) (s : Statistics) : b.count s = s + b.count .zero := by
    cases b <;>
      simp [Admission.count, Statistics.addBad, Statistics.addGood, Statistics.addSkipped,
        Statistics.ext_iff, Statistics.zero]
  cases a with
  | good t =>
    cases hp : c.process (sink.files r.sink).workingDirectory p t with
    | mk item record =>
      cases record with
      | none =>
        simp [visit, outcomeOf, record?, item?, visited?, admission, knownAfter, stopAt, ha, hp,
          Sink.acceptAll, CrawlOutcome.merge, Admission.isSuppressed, hs _ r.outcome.statistics,
          pure, Except.pure, Statistics.add_zero]
      | some record =>
        cases hr : sink.accept record r.sink with
        | error e =>
          simp [visit, record?, admission, stopAt, ha, hp, hr, Sink.acceptAll]
        | ok s =>
          simp [visit, outcomeOf, record?, item?, visited?, admission, knownAfter, stopAt, ha, hp,
            hr, Sink.acceptAll, CrawlOutcome.merge, Admission.isSuppressed,
            hs _ r.outcome.statistics, Statistics.add_zero]
  | _ =>
    simp [visit, outcomeOf, record?, item?, visited?, admission, knownAfter, stopAt, ha,
      Sink.acceptAll, CrawlOutcome.merge, Admission.isSuppressed, hs _ r.outcome.statistics,
      pure, Except.pure, Statistics.add_zero]

/-! ## Parts of a crawl -/

/-- A part of a crawl that starts from `r` and makes the stops `xs` ends with `q`. -/
structure Gives (c : Crawler) (sink : Sink σ) (r : CrawlProgress σ) (xs : List Stop)
    (q : CrawlProgress σ) : Prop where
  outcome : q.outcome = r.outcome.merge (c.outcomeOf xs)
  checkpoint : q.checkpoint = c.knownThrough r.checkpoint xs
  accepted : sink.acceptAll (xs.filterMap c.record?) r.sink = .ok q.sink

/-- Each stop is made with the times that the stops before it left, and with the files as the sink
has them by then. -/
def Follows (c : Crawler) (sink : Sink σ) : Checkpoint → σ → List Stop → Prop
  | _, _, [] => True
  | k, s, x :: xs =>
    x.known = k ∧ x.files = sink.files s ∧
      ∀ s', sink.acceptAll (c.record? x).toList s = .ok s' → c.Follows sink (c.knownAfter x) s' xs

variable {c : Crawler} {sink : Sink σ} {r q : CrawlProgress σ}

theorem Gives.nil (c : Crawler) (sink : Sink σ) (r : CrawlProgress σ) : c.Gives sink r [] r where
  outcome := by simp [outcomeOf_nil, CrawlOutcome.merge, CrawlOutcome.empty, Statistics.add_zero]
  checkpoint := rfl
  accepted := rfl

/-- One stretch of a run after another gives the stops of both. -/
theorem Gives.append {p : CrawlProgress σ} {xs ys : List Stop} (hx : c.Gives sink r xs q)
    (hy : c.Gives sink q ys p) : c.Gives sink r (xs ++ ys) p where
  outcome := by
    rw [hy.outcome, hx.outcome, outcomeOf_append]
    simp [CrawlOutcome.merge, Statistics.add_assoc]
  checkpoint := by
    rw [hy.checkpoint, hx.checkpoint]
    simp [knownThrough]
  accepted := by
    rw [List.filterMap_append, Sink.acceptAll_append, hx.accepted]
    exact hy.accepted

/-- A visit gives its stop. -/
theorem gives_of_visit {p : Path} (h : c.visit sink r p = .ok q) :
    c.Gives sink r [stopAt sink r p] q := by
  rw [visit_eq] at h
  split at h
  · rename_i s hs
    obtain rfl := Except.ok.inj h
    refine ⟨rfl, rfl, ?_⟩
    rw [← hs]
    cases hr : c.record? (stopAt sink r p) <;> simp [hr]
  · cases h

/-- Visits give their stops, in order. -/
theorem gives_of_visits {ps : List Path} (h : ps.foldlM (c.visit sink) r = .ok q) :
    c.Gives sink r (c.stopsAlong sink r ps) q ∧ (c.stopsAlong sink r ps).map Stop.path = ps := by
  induction ps generalizing r with
  | nil =>
    obtain rfl := Except.ok.inj h
    exact ⟨Gives.nil c sink r, rfl⟩
  | cons p ps ih =>
    rw [List.foldlM_cons] at h
    cases hp : c.visit sink r p with
    | error f => simp [hp, bind, Except.bind] at h
    | ok r' =>
      obtain ⟨hg, hm⟩ := ih (r := r') (by simpa [hp, bind, Except.bind] using h)
      rw [stopsAlong, hp]
      exact ⟨(gives_of_visit hp).append hg, by simp [hm, stopAt]⟩

/-- Crawling a root gives a stop for each candidate listed under it. -/
theorem gives_of_crawlRoot {target : Path × Dialect} (h : c.crawlRoot sink r target = .ok q) :
    c.Gives sink r (c.leg sink r target).stops q ∧
      (sink.files r.sink).candidates c.filters target.2 target.1 =
        .ok ((c.leg sink r target).stops.map Stop.path) := by
  unfold crawlRoot at h
  split at h
  · cases h
  · rename_i ps hps
    simp only [leg, hps]
    obtain ⟨hg, hm⟩ := gives_of_visits h
    exact ⟨hg, by rw [hm]⟩

/-- The stops of a leg are all the candidates of its root. -/
def Covers (c : Crawler) (l : Leg) : Prop :=
  l.files.candidates c.filters l.target.2 l.target.1 = .ok (l.stops.map Stop.path)

/-- A run over roots gives the stops of all of them, root by root. -/
theorem gives_of_crawlRoots {targets : List (Path × Dialect)}
    (h : targets.foldlM (c.crawlRoot sink) r = .ok q) :
    c.Gives sink r ((c.legs sink r targets).flatMap Leg.stops) q ∧
      (c.legs sink r targets).map Leg.target = targets ∧
      ∀ l ∈ c.legs sink r targets, c.Covers l := by
  induction targets generalizing r with
  | nil =>
    obtain rfl := Except.ok.inj h
    exact ⟨Gives.nil c sink r, rfl, by simp [legs]⟩
  | cons target targets ih =>
    rw [List.foldlM_cons] at h
    cases ht : c.crawlRoot sink r target with
    | error f => simp [ht, bind, Except.bind] at h
    | ok r' =>
      obtain ⟨hg, hm, hc⟩ := ih (r := r') (by simpa [ht, bind, Except.bind] using h)
      obtain ⟨hl, hcov⟩ := gives_of_crawlRoot ht
      simp only [legs, ht, List.flatMap_cons, List.map_cons, List.forall_mem_cons]
      exact ⟨hl.append hg, by rw [hm]; rfl, hcov, hc⟩

variable {s : σ} {k : Checkpoint}

/-- What a successful run gives is what its stops give. -/
theorem gives_of_run (h : c.run sink s k = .ok r) :
    c.Gives sink ⟨.empty, k, s⟩ (c.stops sink s k) r :=
  (gives_of_crawlRoots h).1

/-- The outcome of a run is that of its stops. -/
theorem outcome_of_run (h : c.run sink s k = .ok r) :
    r.outcome = c.outcomeOf (c.stops sink s k) := by
  rw [(gives_of_run h).outcome]
  simp [CrawlOutcome.merge, CrawlOutcome.empty, Statistics.zero_add]

/-- A successful run comes to every root, and below each to every candidate. -/
theorem covers_of_run (h : c.run sink s k = .ok r) :
    (c.tour sink s k).map Leg.target = c.targets ∧ ∀ l ∈ c.tour sink s k, c.Covers l :=
  (gives_of_crawlRoots h).2

/-! ## Runs that may fail -/

/-- Visits hand on the records of their stops, as far as the sink accepts them. -/
theorem acceptAll_visits (ps : List Path) (r : CrawlProgress σ) :
    sink.acceptAll ((c.stopsAlong sink r ps).filterMap c.record?) r.sink =
      sinkAfter (ps.foldlM (c.visit sink) r) := by
  induction ps generalizing r with
  | nil => rfl
  | cons p ps ih =>
    rw [List.foldlM_cons, stopsAlong, filterMap_cons_stop, Sink.acceptAll_append]
    cases hv : c.visit sink r p with
    | ok q =>
      have := (gives_of_visit hv).accepted
      simp only [List.filterMap_cons, List.filterMap_nil] at this
      cases hr : c.record? (stopAt sink r p) with
      | _ =>
        simp only [hr] at this
        simp only [Option.toList, this, Except.bind, bind]
        exact ih q
    | error f =>
      rw [visit_eq] at hv
      split at hv
      · cases hv
      · rename_i e he
        obtain rfl := Except.error.inj hv
        rw [he]
        rfl

/-- Candidates cannot be listed only for want of the root. -/
theorem candidates_eq_error {fs : FileSystem} {f : Filters} {d : Dialect} {root : Path}
    {e : CrawlError} (h : fs.candidates f d root = .error e) : e = .missingRoot root := by
  unfold FileSystem.candidates at h
  split at h
  · exact (Except.error.inj h).symm
  · split at h
    · cases h
    · split at h <;> cases h

theorem acceptAll_leg (r : CrawlProgress σ) (target : Path × Dialect) :
    sink.acceptAll ((c.leg sink r target).stops.filterMap c.record?) r.sink =
      sinkAfter (c.crawlRoot sink r target) := by
  unfold crawlRoot leg
  cases h : (sink.files r.sink).candidates c.filters target.2 target.1 with
  | ok ps => exact acceptAll_visits ps r
  | error e =>
    obtain rfl := candidates_eq_error h
    rfl

theorem acceptAll_legs (targets : List (Path × Dialect)) (r : CrawlProgress σ) :
    sink.acceptAll (((c.legs sink r targets).flatMap Leg.stops).filterMap c.record?) r.sink =
      sinkAfter (targets.foldlM (c.crawlRoot sink) r) := by
  induction targets generalizing r with
  | nil => rfl
  | cons target targets ih =>
    rw [List.foldlM_cons, legs, List.flatMap_cons, List.filterMap_append, Sink.acceptAll_append,
      acceptAll_leg]
    cases ht : c.crawlRoot sink r target with
    | ok q => exact ih q
    | error f =>
      obtain ⟨e, s⟩ := f
      cases e <;> rfl

/-- The sink was given the records of the stops, whether the run succeeded or not. -/
theorem acceptAll_tour (c : Crawler) (sink : Sink σ) (s : σ) (k : Checkpoint) :
    sink.acceptAll ((c.stops sink s k).filterMap c.record?) s = sinkAfter (c.run sink s k) :=
  acceptAll_legs c.targets _

/-- A tour makes its stops below the roots of the crawler, at candidates. -/
theorem candidate_of_stop {targets : List (Path × Dialect)} {l : Leg} {x : Stop}
    (hl : l ∈ c.legs sink r targets) (hx : x ∈ l.stops) :
    l.target ∈ targets ∧
      ∃ ps, l.files.candidates c.filters l.target.2 l.target.1 = .ok ps ∧ x.path ∈ ps := by
  have along (ps : List Path) (r : CrawlProgress σ) :
      ∀ x ∈ c.stopsAlong sink r ps, x.path ∈ ps := by
    induction ps generalizing r with
    | nil => simp [stopsAlong]
    | cons p ps ih =>
      intro x hx
      rw [stopsAlong, List.mem_cons] at hx
      rcases hx with rfl | hx
      · exact List.mem_cons_self
      · cases hv : c.visit sink r p with
        | ok q => exact List.mem_cons_of_mem _ (ih q x (by simpa [hv] using hx))
        | error f => simp [hv] at hx
  induction targets generalizing r with
  | nil => simp [legs] at hl
  | cons target targets ih =>
    rw [legs, List.mem_cons] at hl
    rcases hl with rfl | hl
    · refine ⟨List.mem_cons_self, ?_⟩
      simp only [leg] at hx ⊢
      split at hx
      · rename_i ps hps
        exact ⟨ps, hps, along ps r x hx⟩
      · simp at hx
    · cases ht : c.crawlRoot sink r target with
      | ok q =>
        obtain ⟨hm, hc⟩ := ih (r := q) (by simpa [ht] using hl)
        exact ⟨List.mem_cons_of_mem _ hm, hc⟩
      | error f => simp [ht] at hl

/-! ## One stop after another -/

/-- Stops follow on when those behind them start where they end. -/
theorem Follows.append {s : σ} {k : Checkpoint} {xs ys : List Stop} (hx : c.Follows sink k s xs)
    (hy : ∀ s', sink.acceptAll (xs.filterMap c.record?) s = .ok s' →
      c.Follows sink (c.knownThrough k xs) s' ys) : c.Follows sink k s (xs ++ ys) := by
  induction xs generalizing k s with
  | nil => exact hy s rfl
  | cons x xs ih =>
    obtain ⟨rfl, hf, hn⟩ := hx
    refine ⟨rfl, hf, fun s' hs' => ih (hn s' hs') fun s'' hs'' => hy s'' ?_⟩
    rw [filterMap_cons_stop]
    exact Sink.acceptAll_append_eq_ok_iff.mpr ⟨s', hs', hs''⟩

theorem follows_visits (ps : List Path) (r : CrawlProgress σ) :
    c.Follows sink r.checkpoint r.sink (c.stopsAlong sink r ps) := by
  induction ps generalizing r with
  | nil => trivial
  | cons p ps ih =>
    refine ⟨rfl, rfl, fun s' hs' => ?_⟩
    rw [visit_eq, hs']
    exact ih ⟨_, c.knownAfter (stopAt sink r p), s'⟩

theorem follows_legs (targets : List (Path × Dialect)) (r : CrawlProgress σ) :
    c.Follows sink r.checkpoint r.sink ((c.legs sink r targets).flatMap Leg.stops) := by
  induction targets generalizing r with
  | nil => trivial
  | cons target targets ih =>
    have hleg : c.Follows sink r.checkpoint r.sink (c.leg sink r target).stops := by
      unfold leg
      cases (sink.files r.sink).candidates c.filters target.2 target.1 with
      | ok ps => exact follows_visits ps r
      | error e => trivial
    rw [legs, List.flatMap_cons]
    refine hleg.append fun s' hs' => ?_
    cases ht : c.crawlRoot sink r target with
    | ok q =>
      have hg := (gives_of_crawlRoot ht).1
      obtain rfl : s' = q.sink := Except.ok.inj (hs'.symm.trans hg.accepted)
      rw [← hg.checkpoint]
      exact ih q
    | error f => trivial

/-- Every stop of a run starts from what the stops before it left. -/
theorem follows_stops (c : Crawler) (sink : Sink σ) (s : σ) (k : Checkpoint) :
    c.Follows sink k s (c.stops sink s k) :=
  follows_legs c.targets ⟨.empty, k, s⟩

end Crawler

end ArchiveLabels
