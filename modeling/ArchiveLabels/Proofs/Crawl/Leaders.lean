import ArchiveLabels.Proofs.Crawl.Accounting

/-!
# What an incremental crawl makes of its candidates

Several candidates may be one file. A crawl that passes over files that have not changed comes to
each of them, but only the first counts : `FileSystem.leaders` are the candidates that lead
somewhere and are the first to do so under their keys. As long as the files at the stops are as they
were at the start (`Stop.Undisturbed`), the crawl visits the leaders whose times are not those of the
checkpoint, besides what leads nowhere, and makes the records that can be made of them
(`Crawler.walked_of_follows`).
-/

namespace ArchiveLabels

open Label

variable {fs gs : FileSystem} {p q : Path} {ps : List Path} {k : Checkpoint} {t : Timestamp}

namespace FileSystem

/-! ## Leaders -/

/-- Of the paths that lead somewhere, the first of each key. -/
def leaders (fs : FileSystem) : List Path → List Path
  | [] => []
  | p :: ps =>
    if fs.has p then p :: (fs.leaders ps).filter fun q => fs.key q ≠ fs.key p else fs.leaders ps

/-- A path that exists leads, and no later path of its key does. -/
theorem leaders_cons_of_has (h : fs.has p = true) (ps : List Path) :
    fs.leaders (p :: ps) = p :: (fs.leaders ps).filter fun q => fs.key q ≠ fs.key p := by
  rw [leaders, if_pos h]

theorem leaders_cons_of_not_has (h : fs.has p = false) (ps : List Path) :
    fs.leaders (p :: ps) = fs.leaders ps := by
  rw [leaders, if_neg (by simp [h])]

/-- Leaders are among the paths, and exist. -/
theorem mem_of_mem_leaders (h : p ∈ fs.leaders ps) : p ∈ ps ∧ fs.has p = true := by
  induction ps with
  | nil => simp [leaders] at h
  | cons q ps ih =>
    cases hq : fs.has q with
    | false =>
      rw [leaders_cons_of_not_has hq] at h
      exact (ih h).imp_left (List.mem_cons_of_mem q)
    | true =>
      rw [leaders_cons_of_has hq, List.mem_cons, List.mem_filter] at h
      rcases h with rfl | ⟨h, -⟩
      · exact ⟨List.mem_cons_self, hq⟩
      · exact (ih h).imp_left (List.mem_cons_of_mem q)

/-- No two leaders have one key. -/
theorem pairwise_leaders (fs : FileSystem) (ps : List Path) :
    (fs.leaders ps).Pairwise fun p q => fs.key p ≠ fs.key q := by
  induction ps with
  | nil => exact .nil
  | cons p ps ih =>
    cases hp : fs.has p with
    | false => rwa [leaders_cons_of_not_has hp]
    | true =>
      rw [leaders_cons_of_has hp, List.pairwise_cons]
      refine ⟨fun q hq => ?_, ih.filter _⟩
      have hne := (List.mem_filter.mp hq).2
      exact fun he => of_decide_eq_true hne he.symm

end FileSystem

/-! ## Leaders that have changed -/

/-- The time of what a path leads to is not the one that is kept. -/
def Checkpoint.isChanged (k : Checkpoint) (fs : FileSystem) (p : Path) : Bool :=
  k.get? fs.workingDirectory p ≠ (fs.modified p).toOption

namespace Checkpoint

theorem isChanged_eq_false_iff (ht : fs.modified p = .ok t) :
    k.isChanged fs p = false ↔ k.get? fs.workingDirectory p = some t := by
  simp [isChanged, ht, Except.toOption]

theorem isChanged_eq_true_iff (ht : fs.modified p = .ok t) :
    k.isChanged fs p = true ↔ k.get? fs.workingDirectory p ≠ some t := by
  simp [isChanged, ht, Except.toOption]

/-- Nothing is kept in the empty checkpoint. -/
theorem isChanged_empty (h : fs.has p = true) : empty.isChanged fs p = true := by
  obtain ⟨t, ht⟩ := FileSystem.has_iff_modified.mp h
  rw [isChanged_eq_true_iff ht]
  simp [empty, get?, Table.get?]

/-- Paths of one key are changed together. -/
theorem isChanged_eq_of_key_eq (hh : fs.HasProperHere) (hp : fs.has p = true) (hq : fs.has q = true)
    (he : fs.key p = fs.key q) : k.isChanged fs p = k.isChanged fs q := by
  rw [isChanged, isChanged, k.get?_eq_of_key_eq he, FileSystem.modified_eq_of_key_eq hh hp hq he]

/-- When the time of a path is kept, then paths of its key are unchanged, and others as before. -/
theorem isChanged_put (hh : fs.HasProperHere) (ht : fs.modified p = .ok t) (hq : fs.has q = true) :
    (k.put fs.workingDirectory p t).isChanged fs q =
      (decide (fs.key q ≠ fs.key p) && k.isChanged fs q) := by
  by_cases he : fs.key q = fs.key p
  · have hu := FileSystem.modified_eq_of_key_eq hh hq (FileSystem.has_iff_modified.mpr ⟨t, ht⟩) he
    simp [isChanged, Checkpoint.get?_put, he, hu, ht, Except.toOption]
  · simp [isChanged, Checkpoint.get?_put, he]

end Checkpoint

/-- Leaders that have changed are those behind the first, if this one has not changed. -/
theorem FileSystem.filter_leaders_of_unchanged (hh : fs.HasProperHere) (hp : fs.has p = true)
    (hk : k.isChanged fs p = false) (ps : List Path) :
    (fs.leaders (p :: ps)).filter (k.isChanged fs) = (fs.leaders ps).filter (k.isChanged fs) := by
  rw [leaders_cons_of_has hp, List.filter_cons_of_neg (by simp [hk]), List.filter_filter]
  refine List.filter_congr fun q hq => ?_
  by_cases he : fs.key q = fs.key p
  · rw [Checkpoint.isChanged_eq_of_key_eq hh (mem_of_mem_leaders hq).2 hp he, hk, Bool.false_and]
  · simp [he]

/-- Otherwise they are the first, and those behind it that have still changed when its time is kept.
-/
theorem FileSystem.filter_leaders_of_changed (hh : fs.HasProperHere) (ht : fs.modified p = .ok t)
    (hk : k.isChanged fs p = true) (ps : List Path) :
    (fs.leaders (p :: ps)).filter (k.isChanged fs) =
      p :: (fs.leaders ps).filter ((k.put fs.workingDirectory p t).isChanged fs) := by
  rw [leaders_cons_of_has (has_iff_modified.mpr ⟨t, ht⟩), List.filter_cons_of_pos hk,
    List.filter_filter]
  refine congrArg (p :: ·) (List.filter_congr fun q hq => ?_)
  rw [Checkpoint.isChanged_put hh ht (mem_of_mem_leaders hq).2, Bool.and_comm]

/-! ## Stops -/

/-- The file at the stop is as it is in `fs`. -/
structure Stop.Undisturbed (fs : FileSystem) (x : Stop) : Prop where
  here : x.files.here = fs.here
  read : x.files.read x.path = fs.read x.path
  modified : x.files.modified x.path = fs.modified x.path

namespace Crawler

variable {σ : Type} {c : Crawler} {sink : Sink σ} {s : σ} {x : Stop} {xs : List Stop}

/-- The record that can be made of a file. -/
def recordOf (c : Crawler) (fs : FileSystem) (p : Path) : Option Record :=
  match c.screening.judge fs p with
  | .good t => (c.process fs.workingDirectory p t).2
  | _ => none

/-- The record is a matter of the bytes in the file and of the current directory. -/
theorem recordOf_congr (hh : gs.here = fs.here) (hr : gs.read p = fs.read p) :
    c.recordOf gs p = c.recordOf fs p := by
  have hcwd := FileSystem.workingDirectory_congr hh
  simp only [recordOf, Screening.judge, FileSystem.readLabel, hr, hcwd]

theorem source_of_recordOf {r : Record} (h : c.recordOf fs p = some r) : r.source = p.text := by
  unfold recordOf at h
  split at h
  · exact source_of_process h
  · cases h

/-- A file that is judged is not passed over, if no files are left out. -/
theorem isSuppressed_judge (he : c.exclusions = .empty) (fs : FileSystem) (p : Path) :
    (c.screening.judge fs p).isSuppressed = false := by
  have hclaimed : c.screening.exclusions.isClaimed fs.workingDirectory p = false := by
    simp [screening, he, Exclusions.empty, Exclusions.isClaimed]
  rw [Screening.judge, if_neg (by simp [hclaimed])]
  cases fs.readLabel p with
  | error e => rfl
  | ok t =>
    simp only [Screening.judgeTree]
    repeat' split
    all_goals rfl

/-- A file whose time cannot be read is visited without a record, and its time is not kept. -/
theorem screen_of_unreadable (hi : c.incremental = true) (hu : x.Undisturbed fs)
    (h : fs.has x.path = false) :
    c.record? x = none ∧ c.visited? x = some x.path.text ∧ c.knownAfter x = x.known := by
  obtain ⟨e, he⟩ : ∃ e, x.files.modified x.path = .error e := by
    rw [hu.modified]
    cases hm : fs.modified x.path with
    | error e => exact ⟨e, rfl⟩
    | ok t =>
      rw [FileSystem.has_iff_modified.mpr ⟨t, hm⟩] at h
      cases h
  have hs : c.screening.screen x.files x.path x.known = (.bad (.unreadable e), x.known) := by
    simp [Screening.screen, screening, hi, he]
  simp [record?, visited?, admission, knownAfter, hs, Admission.isSuppressed]

/-- An unchanged file is passed over. -/
theorem screen_of_unchanged (hi : c.incremental = true) (hu : x.Undisturbed fs)
    (ht : fs.modified x.path = .ok t) (hk : x.known.isChanged fs x.path = false) :
    c.record? x = none ∧ c.visited? x = none ∧ c.knownAfter x = x.known := by
  rw [Checkpoint.isChanged_eq_false_iff ht, ← FileSystem.workingDirectory_congr hu.here] at hk
  have hs := screen_of_known hi (hu.modified.trans ht) hk
  simp [record?, visited?, admission, knownAfter, hs, Admission.isSuppressed]

/-- A changed file is read anew, and its time kept. -/
theorem screen_of_changed (hi : c.incremental = true) (he : c.exclusions = .empty)
    (hu : x.Undisturbed fs) (ht : fs.modified x.path = .ok t)
    (hk : x.known.isChanged fs x.path = true) :
    c.record? x = c.recordOf fs x.path ∧ c.visited? x = some x.path.text ∧
      c.knownAfter x = x.known.put fs.workingDirectory x.path t := by
  rw [Checkpoint.isChanged_eq_true_iff ht, ← FileSystem.workingDirectory_congr hu.here] at hk
  have hs := screen_of_unknown hi (hu.modified.trans ht) hk
  refine ⟨?_, ?_, ?_⟩
  · refine Eq.trans ?_ (recordOf_congr hu.here hu.read)
    cases hj : c.screening.judge x.files x.path <;> simp only [record?, recordOf, admission, hs, hj]
  · rw [visited?, admission, hs, if_neg (by simp [isSuppressed_judge he])]
  · rw [knownAfter, hs, FileSystem.workingDirectory_congr hu.here]

end Crawler

/-! ## All stops -/

/-- The path among the visited ones that leads somewhere under the key of `q`. -/
def FileSystem.visitOf (fs : FileSystem) (visited : List String) (q : Path) : Option Path :=
  (visited.map Path.mk).find? fun p => fs.has p && decide (fs.key p = fs.key q)

theorem FileSystem.of_visitOf {visited : List String} (h : fs.visitOf visited q = some p) :
    p.text ∈ visited ∧ fs.has p = true ∧ fs.key p = fs.key q := by
  have hp := List.find?_some h
  rw [Bool.and_eq_true, decide_eq_true_eq] at hp
  obtain ⟨text, ht, rfl⟩ := List.mem_map.mp (List.mem_of_find?_eq_some h)
  exact ⟨ht, hp⟩

namespace Crawler

variable {σ : Type} {c : Crawler} {sink : Sink σ} {s : σ} {x : Stop} {xs : List Stop}

/-- What a crawl makes of the candidates `ps`, the times in `k` being known : it visits what leads
nowhere and the leaders that have changed, makes the records of these and keeps their times. -/
structure Walked (c : Crawler) (fs : FileSystem) (k : Checkpoint) (ps : List Path)
    (records : List Record) (visited : List String) (known : Checkpoint) : Prop where
  records_eq : records = ((fs.leaders ps).filter (k.isChanged fs)).filterMap (c.recordOf fs)
  mem_visited_iff : ∀ text, text ∈ visited ↔ (⟨text⟩ ∈ ps ∧ fs.has ⟨text⟩ = false) ∨
    ⟨text⟩ ∈ (fs.leaders ps).filter (k.isChanged fs)
  get?_known : ∀ q, known.get? fs.workingDirectory q =
    match fs.visitOf visited q with
    | some p => (fs.modified p).toOption
    | none => k.get? fs.workingDirectory q

variable {rs : List Record} {visited : List String} {k' : Checkpoint}

/-- The step of the induction over the paths, for a file that cannot be read. -/
theorem Walked.of_unreadable (hp : fs.has p = false) (h : c.Walked fs k ps rs visited k') :
    c.Walked fs k (p :: ps) rs (p.text :: visited) k' where
  records_eq := by rw [FileSystem.leaders_cons_of_not_has hp, h.records_eq]
  mem_visited_iff text := by
    rw [FileSystem.leaders_cons_of_not_has hp, List.mem_cons, h.mem_visited_iff, List.mem_cons]
    constructor
    · rintro (rfl | ⟨hm, hn⟩ | hm)
      · exact .inl ⟨.inl rfl, hp⟩
      · exact .inl ⟨.inr hm, hn⟩
      · exact .inr hm
    · rintro (⟨rfl | hm, hn⟩ | hm)
      · exact .inl rfl
      · exact .inr (.inl ⟨hm, hn⟩)
      · exact .inr (.inr hm)
  get?_known q := by
    rw [h.get?_known, FileSystem.visitOf, FileSystem.visitOf, List.map_cons, List.find?_cons_of_neg]
    simp [hp]

theorem Walked.of_unchanged (hh : fs.HasProperHere) (hp : fs.has p = true)
    (hk : k.isChanged fs p = false) (h : c.Walked fs k ps rs visited k') :
    c.Walked fs k (p :: ps) rs visited k' where
  records_eq := by rw [FileSystem.filter_leaders_of_unchanged hh hp hk, h.records_eq]
  mem_visited_iff text := by
    rw [FileSystem.filter_leaders_of_unchanged hh hp hk, h.mem_visited_iff, List.mem_cons]
    refine or_congr_left (and_congr_left fun hn => (or_iff_right ?_).symm)
    rintro rfl
    cases hp.symm.trans hn
  get?_known := h.get?_known

/-- The step for a changed file, whose key is unchanged from there on. -/
theorem Walked.of_changed (hh : fs.HasProperHere) (ht : fs.modified p = .ok t)
    (hk : k.isChanged fs p = true)
    (h : c.Walked fs (k.put fs.workingDirectory p t) ps rs visited k') :
    c.Walked fs k (p :: ps) ((c.recordOf fs p).toList ++ rs) (p.text :: visited) k' where
  records_eq := by
    rw [FileSystem.filter_leaders_of_changed hh ht hk, h.records_eq]
    cases hr : c.recordOf fs p <;> simp [hr]
  mem_visited_iff text := by
    rw [FileSystem.filter_leaders_of_changed hh ht hk, List.mem_cons, h.mem_visited_iff, List.mem_cons,
      List.mem_cons]
    have hp := FileSystem.has_iff_modified.mpr ⟨t, ht⟩
    constructor
    · rintro (rfl | ⟨hm, hn⟩ | hm)
      · exact .inr (.inl rfl)
      · exact .inl ⟨.inr hm, hn⟩
      · exact .inr (.inr hm)
    · rintro (⟨rfl | hm, hn⟩ | rfl | hm)
      · exact .inl rfl
      · exact .inr (.inl ⟨hm, hn⟩)
      · exact .inl rfl
      · exact .inr (.inr hm)
  get?_known q := by
    have hp := FileSystem.has_iff_modified.mpr ⟨t, ht⟩
    rw [h.get?_known]
    by_cases he : fs.key p = fs.key q
    · have hv : fs.visitOf (p.text :: visited) q = some p := by
        rw [FileSystem.visitOf, List.map_cons, List.find?_cons_of_pos]
        simp [hp, he]
      -- Whatever is visited later under the same key has the same time.
      rw [hv]
      cases hq : fs.visitOf visited q with
      | none => simp [Checkpoint.get?_put, he, ht, Except.toOption]
      | some p' =>
        obtain ⟨-, hp', he'⟩ := FileSystem.of_visitOf hq
        exact congrArg Except.toOption
          (FileSystem.modified_eq_of_key_eq hh hp' hp (he'.trans he.symm))
    · have hv : fs.visitOf (p.text :: visited) q = fs.visitOf visited q := by
        rw [FileSystem.visitOf, FileSystem.visitOf, List.map_cons, List.find?_cons_of_neg]
        simp [he]
      rw [hv]
      cases fs.visitOf visited q with
      | none => simp [Checkpoint.get?_put, Ne.symm he]
      | some p' => rfl

/-- What a crawl makes of its candidates, if the files at its stops are undisturbed. -/
theorem walked_of_follows (hi : c.incremental = true) (he : c.exclusions = .empty)
    (hh : fs.HasProperHere) (hf : c.Follows sink k s xs)
    (ha : ∃ s', sink.acceptAll (xs.filterMap c.record?) s = .ok s')
    (hu : ∀ x ∈ xs, x.Undisturbed fs) :
    c.Walked fs k (xs.map Stop.path) (xs.filterMap c.record?) (xs.filterMap c.visited?)
      (c.knownThrough k xs) := by
  induction xs generalizing k s with
  | nil => exact ⟨rfl, fun text => by simp [FileSystem.leaders], fun q => rfl⟩
  | cons x xs ih =>
    obtain ⟨rfl, -, hf⟩ := hf
    obtain ⟨s', ha⟩ := ha
    rw [filterMap_cons_stop] at ha
    obtain ⟨s₁, hs₁, ha⟩ := Sink.acceptAll_append_eq_ok_iff.mp ha
    have hrest := ih (hf s₁ hs₁) ⟨s', ha⟩ fun y hy => hu y (List.mem_cons_of_mem x hy)
    have hx := hu x List.mem_cons_self
    rw [filterMap_cons_stop, filterMap_cons_stop, List.map_cons]
    change c.Walked fs x.known _ _ _ (c.knownThrough (c.knownAfter x) xs)
    cases hp : fs.has x.path with
    | false =>
      obtain ⟨hr, hv, hk⟩ := screen_of_unreadable hi hx hp
      rw [hk] at hrest ⊢
      rw [hr, hv]
      exact hrest.of_unreadable hp
    | true =>
      obtain ⟨t, ht⟩ := FileSystem.has_iff_modified.mp hp
      cases hc : x.known.isChanged fs x.path with
      | false =>
        obtain ⟨hr, hv, hk⟩ := screen_of_unchanged hi hx ht hc
        rw [hk] at hrest ⊢
        rw [hr, hv]
        exact hrest.of_unchanged hh hp hc
      | true =>
        obtain ⟨hr, hv, hk⟩ := screen_of_changed hi he hx ht hc
        rw [hk] at hrest ⊢
        rw [hr, hv]
        exact hrest.of_changed hh ht hc

/-- The source of a record has been visited. -/
theorem Walked.source_mem_visited (h : c.Walked fs k ps rs visited k') {source : String}
    (hs : source ∈ rs.map Record.source) : source ∈ visited := by
  obtain ⟨r, hr, rfl⟩ := List.mem_map.mp hs
  rw [h.records_eq, List.mem_filterMap] at hr
  obtain ⟨p, hp, hr⟩ := hr
  rw [source_of_recordOf hr]
  exact (h.mem_visited_iff p.text).mpr (.inr hp)

/-- No two records are of one source. -/
theorem Walked.nodup_sources (h : c.Walked fs k ps rs visited k') :
    (rs.map Record.source).Nodup := by
  have hleaders : (((fs.leaders ps).filter (k.isChanged fs)).map Path.text).Nodup := by
    refine List.Pairwise.map _ (fun p q hne he => hne ?_) ((fs.pairwise_leaders ps).filter _)
    rw [show p = q from congrArg Path.mk he]
  rw [h.records_eq]
  refine hleaders.sublist ?_
  induction (fs.leaders ps).filter (k.isChanged fs) with
  | nil => exact .slnil
  | cons p ps ih =>
    cases hr : c.recordOf fs p with
    | none =>
      rw [List.filterMap_cons_none hr]
      exact ih.cons _
    | some r =>
      rw [List.filterMap_cons_some hr, List.map_cons, List.map_cons, source_of_recordOf hr]
      exact ih.cons_cons _

end Crawler

end ArchiveLabels
