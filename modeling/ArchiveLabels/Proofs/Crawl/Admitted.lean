import ArchiveLabels.Proofs.Crawl.Tour

/-!
# What a crawl hands on

`Crawler.Admits` says of a label what each stage of the screening and the check of its form ask for,
one by one. `Crawler.handed_on_iff_admitted` : the sink gets no record but of labels that are
admitted, and in a crawl that passes over no file it gets one of each.
-/

namespace ArchiveLabels

open Label

variable {σ : Type}

namespace Crawler

/-- The label `t` in the file at `p` is taken. -/
structure Admits (c : Crawler) (fs : FileSystem) (p : Path) (t : Tree) : Prop where
  unclaimed : fs.absolute p ∉ c.exclusions.claimed
  readable : fs.readLabel p = .ok t
  valid : t.structuralProblem? p.text = none
  typed : t.objectType c.policy ≠ ""
  recognized : t.objectType c.policy = c.policy.legacy.objectType ∨
    ∃ type ∈ c.policy.objectTypes, type.name = t.objectType c.policy
  included : ∀ i, t.identifier? c.policy = some i →
    ∀ entry ∈ c.policy.nonPrimaryMembers ++ c.exclusions.nonPrimary,
      entry.lid = i.lid → entry.version ≠ none ∧ entry.version ≠ i.version

end Crawler

theorem Identifier.covers_eq_false_iff (entry i : Identifier) :
    entry.covers i = false ↔
      (entry.lid = i.lid → entry.version ≠ none ∧ entry.version ≠ i.version) := by
  by_cases hl : entry.lid = i.lid <;> cases hv : entry.version <;> simp [covers, hl, hv]

/-- A type is recognized when it is that of legacy labels or one the policy lists. -/
theorem Policy.recognizes_iff {p : Policy} {type : String} (h : type ≠ "") :
    p.recognizes type = true ↔
      type = p.legacy.objectType ∨ ∃ t ∈ p.objectTypes, t.name = type := by
  simp [recognizes, h]

theorem Exclusions.excludes_eq_false_iff (e : Exclusions) (p : Policy) (i : Identifier) :
    e.excludes p i = false ↔ ∀ entry ∈ p.nonPrimaryMembers ++ e.nonPrimary,
      entry.lid = i.lid → entry.version ≠ none ∧ entry.version ≠ i.version := by
  rw [excludes, List.any_eq_false]
  refine forall₂_congr fun entry _ => ?_
  rw [← Identifier.covers_eq_false_iff, Bool.not_eq_true]

namespace Screening

/-- A label is good when its product is not left out and its type is recognized. -/
theorem judgeTree_eq_good_iff {s : Screening} {t u : Tree} :
    s.judgeTree t = .good u ↔ t = u ∧
      (∀ i, t.identifier? s.policy = some i → s.exclusions.excludes s.policy i = false) ∧
      t.objectType s.policy ≠ "" ∧ s.policy.recognizes (t.objectType s.policy) = true := by
  unfold judgeTree
  cases hi : (t.identifier? s.policy).filter (s.exclusions.excludes s.policy) with
  | some i =>
    obtain ⟨hi, he⟩ := Option.filter_eq_some_iff.mp hi
    simp only [reduceCtorEq, false_iff, not_and]
    intro _ h
    rw [h i hi] at he
    cases he
  | none =>
    have hinc : ∀ i, t.identifier? s.policy = some i →
        s.exclusions.excludes s.policy i = false := by
      intro i h
      have := Option.filter_eq_none_iff.mp hi i h
      simpa using this
    by_cases ht : t.objectType s.policy = ""
    · simp [ht]
    · by_cases hr : s.policy.recognizes (t.objectType s.policy) = true
      · simp only [ht, hr, if_false, Bool.not_true, Bool.false_eq_true, Admission.good.injEq,
          ne_eq, not_false_eq_true, and_true]
        exact ⟨fun h => ⟨h, hinc⟩, And.left⟩
      · simp [ht, hr]

/-- A file is good when it is not claimed, can be read, and its label is good. -/
theorem judge_eq_good_iff {s : Screening} {fs : FileSystem} {p : Path} {t : Tree} :
    s.judge fs p = .good t ↔ s.exclusions.isClaimed fs.workingDirectory p = false ∧
      fs.readLabel p = .ok t ∧ s.judgeTree t = .good t := by
  unfold judge
  cases s.exclusions.isClaimed fs.workingDirectory p with
  | true => simp
  | false =>
    cases h : fs.readLabel p with
    | error e => simp
    | ok u =>
      simp only [Bool.false_eq_true, if_false, Except.ok.injEq, true_and]
      constructor
      · intro hu
        obtain rfl := (judgeTree_eq_good_iff.mp hu).1
        exact ⟨rfl, hu⟩
      · rintro ⟨rfl, hu⟩
        exact hu

/-- Without times the screening is the judgement alone. -/
theorem screen_of_not_incremental {s : Screening} (h : s.incremental = false) (fs : FileSystem)
    (p : Path) (k : Checkpoint) : s.screen fs p k = (s.judge fs p, k) := by
  simp [screen, h]

/-- Screening lets through no file that would be judged otherwise. -/
theorem judge_of_screen_eq_good {s : Screening} {fs : FileSystem} {p : Path} {k : Checkpoint}
    {t : Tree} (h : (s.screen fs p k).1 = .good t) : s.judge fs p = .good t := by
  unfold screen at h
  split at h
  · split at h
    · cases h
    · split at h
      · cases h
      · exact h
  · exact h

end Screening

namespace Crawler

variable {c : Crawler}

/-- A file is admitted when it is good and no structural problem stops it. -/
theorem admits_iff {fs : FileSystem} {p : Path} {t : Tree} :
    c.Admits fs p t ↔ c.screening.judge fs p = .good t ∧ t.structuralProblem? p.text = none := by
  have hclaimed : c.exclusions.isClaimed fs.workingDirectory p = false ↔
      fs.absolute p ∉ c.exclusions.claimed := by
    simp [Exclusions.isClaimed, FileSystem.absolute]
  rw [Screening.judge_eq_good_iff, Screening.judgeTree_eq_good_iff]
  simp only [screening, hclaimed, Exclusions.excludes_eq_false_iff, true_and]
  constructor
  · intro h
    exact ⟨⟨h.unclaimed, h.readable, h.included, h.typed,
      (Policy.recognizes_iff h.typed).mpr h.recognized⟩, h.valid⟩
  · rintro ⟨⟨hc, hr, hi, ht, hk⟩, hv⟩
    exact ⟨hc, hr, hv, ht, (Policy.recognizes_iff ht).mp hk, hi⟩

/-- The record handed on is that of the extraction. -/
theorem process_snd_eq_some_iff {cwd p : Path} {t : Tree} {r : Record} :
    (c.process cwd p t).2 = some r ↔
      t.structuralProblem? p.text = none ∧ r = (t.extract c.policy p.text).record := by
  unfold process
  cases t.structuralProblem? p.text with
  | some problem => simp
  | none => simp [eq_comm]

/-- The record of a stop is that of a label that is admitted. -/
theorem admits_of_record? {x : Stop} {r : Record} (h : c.record? x = some r) :
    ∃ t, c.Admits x.files x.path t ∧ r = (t.extract c.policy x.path.text).record := by
  unfold record? at h
  split at h
  · rename_i t ht
    obtain ⟨hs, hr⟩ := process_snd_eq_some_iff.mp h
    exact ⟨t, admits_iff.mpr ⟨Screening.judge_of_screen_eq_good ht, hs⟩, hr⟩
  · cases h

/-- A crawl that passes over no file makes a record of each label that is admitted. -/
theorem record?_of_admits (hi : c.incremental = false) {x : Stop} {t : Tree}
    (h : c.Admits x.files x.path t) :
    c.record? x = some (t.extract c.policy x.path.text).record := by
  obtain ⟨hj, hs⟩ := admits_iff.mp h
  have ha : c.admission x = .good t := by
    rw [admission, Screening.screen_of_not_incremental hi]
    exact hj
  rw [record?, ha]
  exact process_snd_eq_some_iff.mpr ⟨hs, rfl⟩

/-- What the sink is given, in a run that succeeds or fails, is the records of the stops : each that
of a label admitted, in a candidate below one of the roots. If the crawl succeeds and passes over
no file, then it has stopped at each candidate below each root, and each stop at a label that is
admitted has given its record. -/
theorem handed_on_iff_admitted (c : Crawler) (sink : Sink σ) (s : σ) (k : Checkpoint) :
    sink.acceptAll ((c.stops sink s k).filterMap c.record?) s = sinkAfter (c.run sink s k) ∧
    (∀ l ∈ c.tour sink s k, ∀ x ∈ l.stops, ∀ r, c.record? x = some r →
      l.target ∈ c.targets ∧
      (∃ ps, l.files.candidates c.filters l.target.2 l.target.1 = .ok ps ∧ x.path ∈ ps) ∧
      r.source = x.path.text ∧
      ∃ t, c.Admits x.files x.path t ∧ r = (t.extract c.policy x.path.text).record) ∧
    (c.incremental = false → ∀ q, c.run sink s k = .ok q →
      q.outcome.records = (c.stops sink s k).filterMap c.record? ∧
      (c.tour sink s k).map Leg.target = c.targets ∧
      ∀ l ∈ c.tour sink s k,
        l.files.candidates c.filters l.target.2 l.target.1 = .ok (l.stops.map Stop.path) ∧
        ∀ x ∈ l.stops, ∀ t, c.Admits x.files x.path t →
          c.record? x = some (t.extract c.policy x.path.text).record) := by
  refine ⟨acceptAll_tour c sink s k, ?_, ?_⟩
  · intro l hl x hx r hr
    obtain ⟨ht, hc⟩ := candidate_of_stop hl hx
    obtain ⟨t, ha, rfl⟩ := admits_of_record? hr
    exact ⟨ht, hc, Tree.source_extract t c.policy x.path.text, t, ha, rfl⟩
  · intro hi q hq
    obtain ⟨ht, hc⟩ := covers_of_run hq
    refine ⟨by rw [outcome_of_run hq]; rfl, ht, fun l hl => ⟨hc l hl, fun x _ t ha => ?_⟩⟩
    exact record?_of_admits hi ha

end Crawler

end ArchiveLabels
