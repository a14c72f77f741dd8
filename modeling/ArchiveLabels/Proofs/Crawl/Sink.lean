import ArchiveLabels.Proofs.Crawl.Tour
import ArchiveLabels.Proofs.FileSystem.Blank

/-!
# What becomes of the sink

What holds of the sink at the start and behind each record it is given holds throughout a crawl
(`Crawler.sinkOf_run`, `Crawler.sink_of_legs`). So if the files that the sink leaves are alike, the
crawl comes to the same candidates whatever it hands on, and succeeds just if there is something at
every root and the sink takes all records (`Crawler.exists_run_iff`).
-/

namespace ArchiveLabels

/-- What is left of a sink that was given a record, whether it took it or not. -/
def Sink.left {σ : Type} : Except (FileError × σ) σ → σ
  | .ok s => s
  | .error (_, s) => s

/-- What the first action leaves and the second keeps is left by both. -/
theorem Sink.left_bind {σ : Type} {P : σ → Prop} {x : Except (FileError × σ) σ}
    {f : σ → Except (FileError × σ) σ} (hx : P (left x)) (hf : ∀ s, P s → P (left (f s))) :
    P (left (x >>= f)) := by
  cases x with
  | ok s => exact hf s hx
  | error e => exact hx

namespace Crawler

open FileSystem (Alike)

variable {σ : Type} {c : Crawler} {sink : Sink σ} {r q : CrawlProgress σ} {fs : FileSystem}
  {s : σ} {k : Checkpoint}

/-! ## What holds of the sink -/

/-- What has become of the sink when a crawl is over, be it by an error. -/
def sinkOf : Except (CrawlFailure σ) (CrawlProgress σ) → σ
  | .ok r => r.sink
  | .error f => f.sink

/-- Whatever each step leaves a sink with, the run does, whether it ends or fails. -/
theorem sinkOf_foldlM {α : Type} {P : σ → Prop}
    {f : CrawlProgress σ → α → Except (CrawlFailure σ) (CrawlProgress σ)}
    (hf : ∀ r a, P r.sink → P (sinkOf (f r a))) (as : List α) (r : CrawlProgress σ)
    (hr : P r.sink) : P (sinkOf (as.foldlM f r)) := by
  induction as generalizing r with
  | nil => exact hr
  | cons a as ih =>
    have ha := hf r a hr
    rw [List.foldlM_cons]
    cases h : f r a with
    | error e => rwa [h] at ha
    | ok q =>
      rw [h] at ha
      exact ih q ha

section

variable {P : σ → Prop} (hp : ∀ r s, P s → P (Sink.left (sink.accept r s)))

include hp

/-- A visit keeps what every accepted record keeps, whether it ends or fails. -/
theorem sinkOf_visit {r : CrawlProgress σ} (hr : P r.sink) (p : Path) :
    P (sinkOf (c.visit sink r p)) := by
  rw [visit_eq]
  cases h : c.record? (stopAt sink r p) with
  | none => exact hr
  | some record =>
    have ha := hp record r.sink hr
    simp only [Option.toList, Sink.acceptAll, List.foldlM_cons, List.foldlM_nil]
    cases hs : sink.accept record r.sink with
    | error e => rwa [hs] at ha
    | ok s => rwa [hs] at ha

theorem sinkOf_crawlRoot {r : CrawlProgress σ} (hr : P r.sink) (target : Path × Label.Dialect) :
    P (sinkOf (c.crawlRoot sink r target)) := by
  unfold crawlRoot
  split
  · exact hr
  · rename_i ps _
    exact sinkOf_foldlM (fun r p hr => sinkOf_visit hp hr p) ps r hr

/-- What holds of the sink at the start, and behind each record it is given, holds at the end. -/
theorem sinkOf_run {s : σ} (hs : P s) (k : Checkpoint) : P (sinkOf (c.run sink s k)) :=
  sinkOf_foldlM (fun _ target hr => sinkOf_crawlRoot hp hr target) c.targets ⟨.empty, k, s⟩ hs

/-- It also holds whenever a root is entered and at every stop. -/
theorem sink_of_legs {r : CrawlProgress σ} (hr : P r.sink) (targets : List (Path × Label.Dialect)) :
    ∀ l ∈ c.legs sink r targets, (∃ s, P s ∧ l.files = sink.files s) ∧
      ∀ x ∈ l.stops, ∃ s, P s ∧ x.files = sink.files s := by
  have along (ps : List Path) (r : CrawlProgress σ) (hr : P r.sink) :
      ∀ x ∈ c.stopsAlong sink r ps, ∃ s, P s ∧ x.files = sink.files s := by
    induction ps generalizing r with
    | nil => simp [stopsAlong]
    | cons p ps ih =>
      have hv := sinkOf_visit (c := c) hp hr p
      intro x hx
      rw [stopsAlong, List.mem_cons] at hx
      rcases hx with rfl | hx
      · exact ⟨r.sink, hr, rfl⟩
      · cases h : c.visit sink r p with
        | ok q =>
          rw [h] at hv hx
          exact ih q hv x hx
        | error f => simp [h] at hx
  induction targets generalizing r with
  | nil => simp [legs]
  | cons target targets ih =>
    have ht := sinkOf_crawlRoot (c := c) hp hr target
    intro l hl
    rw [legs, List.mem_cons] at hl
    rcases hl with rfl | hl
    · refine ⟨⟨r.sink, hr, rfl⟩, fun x hx => ?_⟩
      unfold leg at hx
      cases hc : (sink.files r.sink).candidates c.filters target.2 target.1 with
      | ok ps => exact along ps r hr x (by simpa [hc] using hx)
      | error e => simp [hc] at hx
    · cases h : c.crawlRoot sink r target with
      | ok q =>
        rw [h] at ht hl
        exact ih ht l hl
      | error f => simp [h] at hl

end

/-! ## Candidates -/

/-- The candidates below all roots, in the order in which a crawl comes to them. -/
def candidates (c : Crawler) (fs : FileSystem) : List Path :=
  c.targets.flatMap fun target =>
    match fs.candidates c.filters target.2 target.1 with
    | .ok ps => ps
    | .error _ => []

/-- A successful crawl stops at the candidates. -/
theorem paths_of_run (h : c.run sink s k = .ok q) (ha : ∀ l ∈ c.tour sink s k, Alike fs l.files) :
    (c.stops sink s k).map Stop.path = c.candidates fs := by
  obtain ⟨htargets, hcovers⟩ := covers_of_run h
  rw [stops, candidates, ← htargets, List.map_flatMap, List.flatMap_map]
  have hlegs : ∀ l ∈ c.tour sink s k, l.stops.map Stop.path =
      match fs.candidates c.filters l.target.2 l.target.1 with
      | .ok ps => ps
      | .error _ => [] := by
    intro l hl
    have hl' := hcovers l hl
    rw [Covers, (ha l hl).candidates] at hl'
    rw [hl']
  rw [List.flatMap_def, List.flatMap_def, List.map_congr_left hlegs]

/-- A stop is at a candidate. -/
theorem path_mem_candidates (ha : ∀ l ∈ c.tour sink s k, Alike fs l.files) {x : Stop}
    (hx : x ∈ c.stops sink s k) : x.path ∈ c.candidates fs := by
  obtain ⟨l, hl, hx⟩ := List.mem_flatMap.mp hx
  obtain ⟨ht, ps, hps, hp⟩ := candidate_of_stop hl hx
  rw [(ha l hl).candidates] at hps
  refine List.mem_flatMap.mpr ⟨l.target, ht, ?_⟩
  rw [hps]
  exact hp

/-! ## Success -/

variable {P : σ → Prop} (hp : ∀ r s, P s → ∃ s', sink.accept r s = .ok s' ∧ P s')

include hp

/-- A visit ends well when every record is accepted. -/
theorem exists_visit (hr : P r.sink) (p : Path) : ∃ q, c.visit sink r p = .ok q ∧ P q.sink := by
  rw [visit_eq]
  cases c.record? (stopAt sink r p) with
  | none => exact ⟨_, rfl, hr⟩
  | some record =>
    obtain ⟨s', hs', hps'⟩ := hp record r.sink hr
    have hall : sink.acceptAll (some record).toList r.sink = .ok s' := by
      simp [Sink.acceptAll, hs']
    rw [hall]
    exact ⟨_, rfl, hps'⟩

/-- Visits one after the other end well when every record is accepted. -/
theorem exists_visits (hr : P r.sink) (ps : List Path) :
    ∃ q, ps.foldlM (c.visit sink) r = .ok q ∧ P q.sink := by
  induction ps generalizing r with
  | nil => exact ⟨r, rfl, hr⟩
  | cons p ps ih =>
    obtain ⟨q, hq, hpq⟩ := exists_visit (c := c) hp hr p
    obtain ⟨q', hq', hpq'⟩ := ih hpq
    exact ⟨q', by rw [List.foldlM_cons, hq]; exact hq', hpq'⟩

/-- With every record accepted, a crawl ends well exactly when the candidates of every target
can be listed. -/
theorem exists_crawlRoots_iff (ha : ∀ s, P s → Alike fs (sink.files s)) (hr : P r.sink)
    (targets : List (Path × Label.Dialect)) :
    (∃ q, targets.foldlM (c.crawlRoot sink) r = .ok q) ↔
      ∀ target ∈ targets, ∃ ps, fs.candidates c.filters target.2 target.1 = .ok ps := by
  induction targets generalizing r with
  | nil => exact ⟨fun _ _ h => (by cases h), fun _ => ⟨r, rfl⟩⟩
  | cons target targets ih =>
    have hc := (ha r.sink hr).candidates c.filters target.2 target.1
    rw [List.foldlM_cons, List.forall_mem_cons]
    cases hps : fs.candidates c.filters target.2 target.1 with
    | error e =>
      have hroot : c.crawlRoot sink r target = .error ⟨e, r.sink⟩ := by
        rw [crawlRoot, hc, hps]
      rw [hroot]
      constructor
      · rintro ⟨q, hq⟩
        cases hq
      · rintro ⟨⟨ps, hps⟩, -⟩
        cases hps
    | ok ps =>
      obtain ⟨q, hq, hpq⟩ := exists_visits (c := c) hp hr ps
      have hroot : c.crawlRoot sink r target = .ok q := by
        rw [crawlRoot, hc, hps]
        exact hq
      rw [hroot]
      exact Iff.trans (ih hpq) ⟨fun h => ⟨⟨ps, rfl⟩, h⟩, And.right⟩

/-- A crawl whose sink takes all records, and leaves files that are alike, succeeds just if there is
something at every root. -/
theorem exists_run_iff (ha : ∀ s, P s → Alike fs (sink.files s)) (hs : P s) (k : Checkpoint) :
    (∃ q, c.run sink s k = .ok q) ↔
      ∀ target ∈ c.targets, ∃ ps, fs.candidates c.filters target.2 target.1 = .ok ps :=
  exists_crawlRoots_iff hp ha hs c.targets

end Crawler

end ArchiveLabels
