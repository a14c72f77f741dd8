import ArchiveLabels.Proofs.Crawl.Accounting
import ArchiveLabels.Proofs.Crawl.Sink

/-!
# A crawl made again

Behind a crawl that passes over files that have not changed, the checkpoint has the time of each
candidate, whatever was made of it and under whichever of its spellings the crawl came to it :
`Checkpoint.Knows` holds behind each stop and is never lost again (`Crawler.knows_of_stop`). So if
the crawl is made again while the files are as they were, it passes over all of them
(`Crawler.run_again`).
-/

namespace ArchiveLabels

variable {σ τ : Type} {fs gs : FileSystem} {k : Checkpoint} {p q : Path} {t : Timestamp}

namespace Checkpoint

/-- The time of what the path leads to can be read and is the one that is kept. -/
def Knows (k : Checkpoint) (fs : FileSystem) (p : Path) : Prop :=
  ∃ t, fs.modified p = .ok t ∧ k.get? fs.workingDirectory p = some t

theorem knows_put (ht : fs.modified p = .ok t) : (k.put fs.workingDirectory p t).Knows fs p :=
  ⟨t, ht, by rw [get?_put, if_pos rfl]⟩

/-- When a time is kept, the others are still known : those under the same key are the same. -/
theorem Knows.put (h : k.Knows fs q) (hh : fs.HasProperHere) (ht : fs.modified p = .ok t) :
    (k.put fs.workingDirectory p t).Knows fs q := by
  obtain ⟨u, hu, hk⟩ := h
  refine ⟨u, hu, ?_⟩
  rw [get?_put]
  split
  · rename_i he
    rw [FileSystem.time_eq_of_key_eq hh hu ht he]
  · exact hk

end Checkpoint

namespace Crawler

variable {c : Crawler} {sink : Sink σ} {s : σ} {r : CrawlProgress σ} {x : Stop} {xs : List Stop}

/-! ## Behind a crawl -/

/-- The file at a stop is known when the crawl goes on, and so is what was known before. -/
theorem knows_screen (hi : c.incremental = true) (hh : fs.HasProperHere) (hgs : gs.here = fs.here)
    (ht : gs.modified p = .ok t) (ht' : fs.modified p = .ok t) (k : Checkpoint) :
    (c.screening.screen gs p k).2.Knows fs p ∧
      ∀ q, k.Knows fs q → (c.screening.screen gs p k).2.Knows fs q := by
  have hcwd := FileSystem.workingDirectory_congr hgs
  by_cases hk : k.get? gs.workingDirectory p = some t
  · rw [screen_of_known (x := ⟨p, gs, k⟩) hi ht hk]
    exact ⟨⟨t, ht', hcwd ▸ hk⟩, fun _ h => h⟩
  · rw [screen_of_unknown (x := ⟨p, gs, k⟩) hi ht hk, hcwd]
    exact ⟨Checkpoint.knows_put ht', fun _ h => h.put hh ht'⟩

/-- What is known when stops are made is still known behind them. -/
theorem knows_knownThrough (hi : c.incremental = true) (hh : fs.HasProperHere) (hs : Steady fs xs)
    (h : k.Knows fs q) : (c.knownThrough k xs).Knows fs q := by
  induction xs generalizing k with
  | nil => exact h
  | cons x xs ih =>
    obtain ⟨t, ht, ht'⟩ := hs.times x List.mem_cons_self
    exact ih hs.of_cons ((knows_screen hi hh (hs.here x List.mem_cons_self) ht ht' k).2 q h)

/-- The file of each stop is known behind all of them. -/
theorem knows_of_stop (hi : c.incremental = true) (hh : fs.HasProperHere) (hs : Steady fs xs)
    (hx : x ∈ xs) (k : Checkpoint) : (c.knownThrough k xs).Knows fs x.path := by
  induction xs generalizing k with
  | nil => cases hx
  | cons y xs ih =>
    rcases List.mem_cons.mp hx with rfl | hx
    · obtain ⟨t, ht, ht'⟩ := hs.times x List.mem_cons_self
      have hknown := (knows_screen hi hh (hs.here x List.mem_cons_self) ht ht' k).1
      exact knows_knownThrough (k := (c.screening.screen x.files x.path k).2) hi hh hs.of_cons hknown
    · exact ih hs.of_cons hx _

/-! ## The second crawl -/

/-- A candidate that is known leaves everything as it is. -/
theorem visit_of_knows (hi : c.incremental = true) (hk : r.checkpoint.Knows (sink.files r.sink) p) :
    c.visit sink r p = .ok r := by
  obtain ⟨t, ht, hk⟩ := hk
  have hscreen := screen_of_known (x := stopAt sink r p) hi ht hk
  simp only [stopAt] at hscreen
  simp [visit, hscreen, Admission.isSuppressed, Admission.count]

/-- A crawl that knows all its candidates leaves everything as it is. -/
theorem run_of_knows (hi : c.incremental = true)
    (hc : ∀ target ∈ c.targets, ∃ ps,
      (sink.files s).candidates c.filters target.2 target.1 = .ok ps ∧
        ∀ p ∈ ps, k.Knows (sink.files s) p) :
    c.run sink s k = .ok ⟨.empty, k, s⟩ := by
  have visits (ps : List Path) (hps : ∀ p ∈ ps, k.Knows (sink.files s) p) :
      ps.foldlM (c.visit sink) ⟨.empty, k, s⟩ = .ok ⟨.empty, k, s⟩ := by
    induction ps with
    | nil => rfl
    | cons p ps ih =>
      have hvisit : c.visit sink ⟨.empty, k, s⟩ p = .ok ⟨.empty, k, s⟩ :=
        visit_of_knows (r := ⟨.empty, k, s⟩) hi (hps p List.mem_cons_self)
      rw [List.foldlM_cons, hvisit]
      exact ih fun q hq => hps q (List.mem_cons_of_mem p hq)
  unfold run
  revert hc
  induction c.targets with
  | nil => exact fun _ => rfl
  | cons target targets ih =>
    intro hc
    obtain ⟨ps, hps, hknows⟩ := hc target List.mem_cons_self
    have hroot : c.crawlRoot sink ⟨.empty, k, s⟩ target = .ok ⟨.empty, k, s⟩ := by
      rw [crawlRoot, hps]
      exact visits ps hknows
    rw [List.foldlM_cons, hroot]
    exact ih fun other ho => hc other (List.mem_cons_of_mem target ho)

/-- A crawl finds things as they are in `fs` : below each root the same candidates, and each of them
with a time that can be read and is the same. -/
structure Finds (c : Crawler) (sink : Sink σ) (s : σ) (k : Checkpoint) (fs : FileSystem) : Prop where
  candidates : ∀ l ∈ c.tour sink s k, l.files.candidates c.filters l.target.2 l.target.1 =
    fs.candidates c.filters l.target.2 l.target.1
  steady : Steady fs (c.stops sink s k)

/-- A crawl finds things as they are if its sink leaves the files alone and the times of all
candidates can be read. -/
theorem finds_of_files (hfiles : ∀ s, sink.files s = fs)
    (ht : ∀ p ∈ c.candidates fs, ∃ t, fs.modified p = .ok t) (s : σ) (k : Checkpoint) :
    c.Finds sink s k fs := by
  have hlegs : ∀ l ∈ c.tour sink s k, l.files = fs ∧ ∀ x ∈ l.stops, x.files = fs := by
    intro l hl
    obtain ⟨⟨s', -, hleg⟩, hstops⟩ := sink_of_legs (P := fun _ => True) (fun _ _ _ => trivial)
      (r := ⟨.empty, k, s⟩) trivial c.targets l hl
    refine ⟨hleg.trans (hfiles s'), fun x hx => ?_⟩
    obtain ⟨s'', -, hx'⟩ := hstops x hx
    exact hx'.trans (hfiles s'')
  have hstop : ∀ x ∈ c.stops sink s k, x.files = fs := by
    intro x hx
    obtain ⟨l, hl, hx⟩ := List.mem_flatMap.mp hx
    exact (hlegs l hl).2 x hx
  refine ⟨fun l hl => by rw [(hlegs l hl).1], fun x hx => by rw [hstop x hx], fun x hx => ?_⟩
  have halike : ∀ l ∈ c.tour sink s k, FileSystem.Alike fs l.files := by
    intro l hl
    rw [(hlegs l hl).1]
    exact .refl fs
  obtain ⟨t, ht⟩ := ht x.path (path_mem_candidates halike hx)
  exact ⟨t, by rw [hstop x hx, ht], ht⟩

/-- A crawl that passes over files that have not changed, made again with the checkpoint that it has
left while everything is as it was : it succeeds, finds nothing, hands nothing on, be it to the same
sink or another, and leaves the checkpoint as it is. -/
theorem run_again (c : Crawler) (sink : Sink σ) (s : σ) (k : Checkpoint) (q : CrawlProgress σ)
    (h : c.run sink s k = .ok q) (hi : c.incremental = true) (fs : FileSystem)
    (hh : fs.HasProperHere) (hf : c.Finds sink s k fs) (sink' : Sink τ) (s' : τ)
    (hs' : sink'.files s' = fs) : c.run sink' s' q.checkpoint = .ok ⟨.empty, q.checkpoint, s'⟩ := by
  obtain ⟨htargets, hcovers⟩ := covers_of_run h
  refine run_of_knows hi fun target ht => ?_
  rw [← htargets] at ht
  obtain ⟨l, hl, rfl⟩ := List.mem_map.mp ht
  refine ⟨l.stops.map Stop.path, ?_, fun p hp => ?_⟩
  · rw [hs', ← hf.candidates l hl]
    exact hcovers l hl
  · obtain ⟨x, hx, rfl⟩ := List.mem_map.mp hp
    rw [hs', (gives_of_run h).checkpoint]
    exact knows_of_stop hi hh hf.steady (List.mem_flatMap.mpr ⟨l, hl, hx⟩) k

set_option maxRecDepth 100000 in
/-- The catalog file of two spellings is passed over when it is crawled again. -/
theorem run_again_catalog :
    ∃ q, catalogCrawler.run (.keeping catalogFiles) [] .empty = .ok q ∧
      q.outcome.statistics = ⟨1, 0, 0⟩ ∧
      catalogCrawler.run (.keeping catalogFiles) [] q.checkpoint = .ok ⟨.empty, q.checkpoint, []⟩ := by
  have hstats : (catalogCrawler.run (.keeping catalogFiles) [] .empty).toOption.map
      (fun q => q.outcome.statistics) = some ⟨1, 0, 0⟩ := by
    decide +kernel
  have htimes : ∀ p ∈ catalogCrawler.candidates catalogFiles,
      catalogFiles.modified p = .ok ⟨1, 0⟩ := by
    decide +kernel
  cases hq : catalogCrawler.run (.keeping catalogFiles) [] .empty with
  | error f =>
    rw [hq] at hstats
    cases hstats
  | ok q =>
    rw [hq] at hstats
    have hfinds : catalogCrawler.Finds (.keeping catalogFiles) [] .empty catalogFiles :=
      finds_of_files (fun _ => rfl) (fun p hp => ⟨_, htimes p hp⟩) [] .empty
    exact ⟨q, rfl, Option.some.inj hstats,
      run_again catalogCrawler _ [] .empty q hq rfl catalogFiles
        (by simp [FileSystem.HasProperHere, catalogFiles]) hfinds _ [] rfl⟩

end Crawler

end ArchiveLabels
