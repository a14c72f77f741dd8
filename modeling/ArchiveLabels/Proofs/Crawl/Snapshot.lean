import ArchiveLabels.Proofs.Crawl.Accounting
import ArchiveLabels.Proofs.Crawl.Sink
import ArchiveLabels.Proofs.Crawl.Walk

/-!
# Crawls of a snapshot

As long as its sink leaves the files alone, a crawl sees one file system throughout. Its stops are
then those at the candidates, each with the times that the screening of the candidates before it has
left (`Crawler.stops_eq_stopsIn`), so that what the crawl gives is a matter of the list of candidates
and of the checkpoint it starts with.

How a candidate is screened depends on the checkpoint at its own key only, and of two spellings of
one key the screening makes the same (`Screening.judge_eq_of_key_eq`).
-/

namespace ArchiveLabels

open Label

variable {σ : Type} {fs gs : FileSystem} {p q : Path} {t : Timestamp}

/-! ## Screening -/

namespace Screening

variable {s : Screening}

/-- How a candidate is screened is a matter of the current directory and of the bytes and the time of
the file. -/
theorem screen_congr (s : Screening) (hh : gs.here = fs.here) (hr : gs.read p = fs.read p)
    (hm : gs.modified p = fs.modified p) (k : Checkpoint) : s.screen gs p k = s.screen fs p k := by
  simp only [screen, judge, FileSystem.readLabel, hm, hr, FileSystem.workingDirectory_congr hh]

/-- A candidate is screened in one of two ways : the checkpoint makes no difference, or its time is
compared and kept. -/
theorem screen_cases (s : Screening) (fs : FileSystem) (p : Path) :
    (∃ a, ∀ k, s.screen fs p k = (a, k)) ∨ s.incremental = true ∧ ∃ t, fs.modified p = .ok t := by
  cases hi : s.incremental with
  | false => exact .inl ⟨s.judge fs p, fun k => by simp [screen, hi]⟩
  | true =>
    cases hm : fs.modified p with
    | error e => exact .inl ⟨.bad (.unreadable e), fun k => by simp [screen, hi, hm]⟩
    | ok t => exact .inr ⟨rfl, t, rfl⟩

/-- An incremental crawl judges a file when its time is another one, and keeps the time either
way. -/
theorem screen_of_modified (hi : s.incremental = true) (ht : fs.modified p = .ok t)
    (k : Checkpoint) :
    s.screen fs p k = if k.get? fs.workingDirectory p = some t then (.unchanged, k)
      else (s.judge fs p, k.put fs.workingDirectory p t) := by
  unfold screen Checkpoint.observe
  rw [if_pos hi, ht]
  by_cases hk : k.get? fs.workingDirectory p = some t
  · simp only [hk, if_true]
  · simp only [hk, if_false]

/-- A candidate is passed over, or the same becomes of it as if nothing were known. -/
theorem screen_eq_unchanged_or (s : Screening) (fs : FileSystem) (p : Path) (k : Checkpoint) :
    (s.screen fs p k).1 = .unchanged ∨ (s.screen fs p k).1 = (s.screen fs p .empty).1 := by
  rcases s.screen_cases fs p with ⟨a, ha⟩ | ⟨hi, t, ht⟩
  · rw [ha, ha]
    exact .inr rfl
  · have hempty : Checkpoint.empty.get? fs.workingDirectory p ≠ some t := by
      simp [Checkpoint.empty, Checkpoint.get?, Table.get?]
    rw [screen_of_modified hi ht, screen_of_modified hi ht, if_neg hempty]
    split
    · exact .inl rfl
    · exact .inr rfl

/-- Of two spellings of one key the same is made, if their extensions stand for a dialect at all. -/
theorem judge_eq_of_key_eq (s : Screening) (hh : fs.HasProperHere) {d e : Dialect}
    (hd : Dialect.ofPath? p = some d) (he : Dialect.ofPath? q = some e) (hp : fs.has p = true)
    (hq : fs.has q = true) (h : fs.key p = fs.key q) : s.judge fs p = s.judge fs q := by
  obtain ⟨m, hm⟩ := Dialect.exists_fileName hd
  obtain ⟨n, hn⟩ := Dialect.exists_fileName he
  have habsolute : fs.absolute p = fs.absolute q := FileSystem.absolute_eq_of_key_eq hh
    (Path.text_ne_of_fileName? hm) (Path.text_ne_of_fileName? hn) h
  have hclaimed : s.exclusions.isClaimed fs.workingDirectory p =
      s.exclusions.isClaimed fs.workingDirectory q :=
    congrArg s.exclusions.claimed.contains habsolute
  have hdialect : Dialect.ofPath? p = Dialect.ofPath? q :=
    congrArg (fun name => (name.bind fun n => (Path.splitExtension n).2).bind Dialect.ofExtension?)
      (FileSystem.fileName?_eq_of_key_eq hh hm hn h)
  have hlabel : fs.readLabel p = fs.readLabel q := by
    unfold FileSystem.readLabel
    rw [← hdialect, hd, FileSystem.read_eq_of_key_eq hh hp hq h]
  rw [judge, judge, hclaimed, hlabel]

end Screening

namespace Crawler

variable {c : Crawler} {sink : Sink σ} {s : σ} {k : Checkpoint} {r : CrawlProgress σ}

/-! ## Stops -/

/-- The stops at paths in turn while the files are as in `fs`. -/
def stopsIn (c : Crawler) (fs : FileSystem) : Checkpoint → List Path → List Stop
  | _, [] => []
  | k, p :: ps => ⟨p, fs, k⟩ :: c.stopsIn fs (c.screening.screen fs p k).2 ps

/-- Each root is entered with the files as they are. -/
theorem files_of_leg (hfiles : ∀ s, sink.files s = fs) :
    ∀ l ∈ c.tour sink s k, l.files = fs := by
  intro l hl
  obtain ⟨⟨s', -, hs'⟩, -⟩ := sink_of_legs (P := fun _ => True) (fun _ _ _ => trivial)
    (r := ⟨.empty, k, s⟩) trivial c.targets l hl
  rw [hs', hfiles]

/-- A crawl that succeeds has found something at each root. -/
theorem candidates_of_run (hfiles : ∀ s, sink.files s = fs) (h : c.run sink s k = .ok r) :
    ∀ target ∈ c.targets, ∃ ps, fs.candidates c.filters target.2 target.1 = .ok ps := by
  obtain ⟨htargets, hcovers⟩ := covers_of_run h
  intro target ht
  rw [← htargets] at ht
  obtain ⟨l, hl, rfl⟩ := List.mem_map.mp ht
  have hcover := hcovers l hl
  rw [Covers, files_of_leg hfiles l hl] at hcover
  exact ⟨_, hcover⟩

/-- The stops of a crawl whose sink leaves the files alone are those at the candidates. -/
theorem stops_eq_stopsIn (hfiles : ∀ s, sink.files s = fs) (h : c.run sink s k = .ok r) :
    c.stops sink s k = c.stopsIn fs k (c.candidates fs) := by
  have follows (xs : List Stop) (s : σ) (k : Checkpoint) (hf : c.Follows sink k s xs)
      (ha : ∃ s', sink.acceptAll (xs.filterMap c.record?) s = .ok s') :
      xs = c.stopsIn fs k (xs.map Stop.path) := by
    induction xs generalizing s k with
    | nil => rfl
    | cons x xs ih =>
      obtain ⟨p, gs, k'⟩ := x
      obtain ⟨rfl, rfl, hf⟩ := hf
      obtain ⟨s', ha⟩ := ha
      rw [filterMap_cons_stop] at ha
      obtain ⟨s₁, hs₁, ha⟩ := Sink.acceptAll_append_eq_ok_iff.mp ha
      rw [hfiles] at hf hs₁ ⊢
      rw [List.map_cons, stopsIn]
      exact congrArg _ (ih s₁ _ (hf s₁ hs₁) ⟨s', ha⟩)
  have halike : ∀ l ∈ c.tour sink s k, FileSystem.Alike fs l.files := by
    intro l hl
    rw [files_of_leg hfiles l hl]
    exact .refl fs
  rw [← paths_of_run h halike]
  exact follows _ s k (follows_stops c sink s k) ⟨r.sink, (gives_of_run h).accepted⟩

end Crawler

end ArchiveLabels
