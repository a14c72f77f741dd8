import ArchiveLabels.Proofs.Crawl.Tour
import ArchiveLabels.Proofs.FileSystem.Trail
import ArchiveLabels.Proofs.Path.Order

/-!
# Files are visited once

Roots may overlap, and one file may be spelled in many ways. A crawl that passes over files that
have not changed still visits none twice : the checkpoint it keeps while it runs has the time of
each file visited, under the absolute spelling of its path. `Crawler.visited_once` : this holds as
long as the times stay as they are while the crawl runs.
-/

namespace ArchiveLabels

variable {σ : Type}

/-- The times of the files at stops can be read and are those of `fs`, with the same current
directory. -/
structure Steady (fs : FileSystem) (xs : List Stop) : Prop where
  here : ∀ x ∈ xs, x.files.here = fs.here
  times : ∀ x ∈ xs, ∃ t, x.files.modified x.path = .ok t ∧ fs.modified x.path = .ok t

theorem Steady.of_cons {fs : FileSystem} {x : Stop} {xs : List Stop} (h : Steady fs (x :: xs)) :
    Steady fs xs where
  here y hy := h.here y (List.mem_cons_of_mem x hy)
  times y hy := h.times y (List.mem_cons_of_mem x hy)

theorem FileSystem.workingDirectory_congr {fs gs : FileSystem} (h : fs.here = gs.here) :
    fs.workingDirectory = gs.workingDirectory := by
  rw [workingDirectory, workingDirectory, h]

/-- A path exists when it leads to an entry. -/
theorem FileSystem.has_iff {fs : FileSystem} {p : Path} :
    fs.has p = true ↔ ∃ e, fs.entry? p = .ok e := by
  rw [has]
  cases fs.entry? p <;> simp [Except.toBool]

/-- What is there has a time. -/
theorem FileSystem.has_iff_modified {fs : FileSystem} {p : Path} :
    fs.has p = true ↔ ∃ t, fs.modified p = .ok t := by
  rw [has_iff, modified]
  cases fs.entry? p with
  | error e => simp [bind, Except.bind]
  | ok e => cases e <;> simp [bind, Except.bind, pure, Except.pure]

/-- Paths of one key that lead somewhere lead to one entry. -/
theorem FileSystem.entry?_eq_of_key_eq {fs : FileSystem} (hh : fs.HasProperHere) {p q : Path}
    (hp : fs.has p) (hq : fs.has q) (h : fs.key p = fs.key q) : fs.entry? p = fs.entry? q := by
  obtain ⟨e, hep⟩ := has_iff.mp hp
  obtain ⟨f, hfq⟩ := has_iff.mp hq
  obtain ⟨place, hlp⟩ := entry?_eq_ok_iff.mp hep
  obtain ⟨place', hlq⟩ := entry?_eq_ok_iff.mp hfq
  unfold key at h
  rw [components_absolute hh (text_ne_of_locate hlp),
    components_absolute hh (text_ne_of_locate hlq)] at h
  obtain ⟨-, rfl⟩ := found_eq_of_trail_eq hh hlp hlq (List.cons.inj h).2
  rw [hep, hfq]

/-- Files of one key have one time. -/
theorem FileSystem.modified_eq_of_key_eq {fs : FileSystem} (hh : fs.HasProperHere) {p q : Path}
    (hp : fs.has p) (hq : fs.has q) (h : fs.key p = fs.key q) : fs.modified p = fs.modified q := by
  rw [modified, modified, entry?_eq_of_key_eq hh hp hq h]

/-- Paths of one key are paths of one time. -/
theorem FileSystem.time_eq_of_key_eq {fs : FileSystem} (hh : fs.HasProperHere) {p q : Path}
    {t u : Timestamp} (hp : fs.modified p = .ok t) (hq : fs.modified q = .ok u)
    (h : fs.key p = fs.key q) : t = u := by
  rw [modified_eq_of_key_eq hh (has_iff_modified.mpr ⟨t, hp⟩) (has_iff_modified.mpr ⟨u, hq⟩) h]
    at hp
  exact Except.ok.inj (hp.symm.trans hq)

/-- Files of one key have one content. -/
theorem FileSystem.read_eq_of_key_eq {fs : FileSystem} (hh : fs.HasProperHere) {p q : Path}
    (hp : fs.has p) (hq : fs.has q) (h : fs.key p = fs.key q) : fs.read p = fs.read q := by
  rw [read, read, entry?_eq_of_key_eq hh hp hq h]

namespace Crawler

variable {c : Crawler} {sink : Sink σ} {s : σ} {k : Checkpoint} {fs : FileSystem} {x : Stop}
  {xs : List Stop} {t : Timestamp}

/-- A file that the checkpoint knows by its time is passed over. -/
theorem screen_of_known (hi : c.incremental = true) (ht : x.files.modified x.path = .ok t)
    (hk : x.known.get? x.files.workingDirectory x.path = some t) :
    c.screening.screen x.files x.path x.known = (.unchanged, x.known) := by
  simp [Screening.screen, screening, hi, ht, Checkpoint.observe, hk]

/-- Another file is judged, and the checkpoint keeps its time. -/
theorem screen_of_unknown (hi : c.incremental = true) (ht : x.files.modified x.path = .ok t)
    (hk : x.known.get? x.files.workingDirectory x.path ≠ some t) :
    c.screening.screen x.files x.path x.known =
      (c.screening.judge x.files x.path, x.known.put x.files.workingDirectory x.path t) := by
  simp [Screening.screen, screening, hi, ht, Checkpoint.observe, hk]

theorem text_of_visited? {text : String} (h : c.visited? x = some text) : text = x.path.text := by
  unfold visited? at h
  split at h
  · cases h
  · exact (Option.some.inj h).symm

/-- No stop is visited whose file the checkpoint knows by its time when the first stop is made. -/
theorem unknown_of_visited (hi : c.incremental = true) (hh : fs.HasProperHere)
    (hf : c.Follows sink k s xs) (ha : ∃ s', sink.acceptAll (xs.filterMap c.record?) s = .ok s')
    (hs : Steady fs xs) :
    ∀ y ∈ xs, (c.visited? y).isSome → ∀ u, fs.modified y.path = .ok u →
      k.get? fs.workingDirectory y.path ≠ some u := by
  induction xs generalizing k s with
  | nil => simp
  | cons x xs ih =>
    obtain ⟨rfl, -, hf⟩ := hf
    obtain ⟨s', ha⟩ := ha
    rw [filterMap_cons_stop] at ha
    obtain ⟨s₁, hs₁, ha⟩ := Sink.acceptAll_append_eq_ok_iff.mp ha
    have hnew := ih (hf s₁ hs₁) ⟨s', ha⟩ hs.of_cons
    obtain ⟨t, ht, ht'⟩ := hs.times x List.mem_cons_self
    have hcwd := FileSystem.workingDirectory_congr (hs.here x List.mem_cons_self)
    intro y hy hvy u hu
    by_cases hk : x.known.get? x.files.workingDirectory x.path = some t
    · have hscreen := screen_of_known hi ht hk
      rw [knownAfter, hscreen] at hnew
      rcases List.mem_cons.mp hy with rfl | hy
      · simp [visited?, admission, hscreen, Admission.isSuppressed] at hvy
      · exact hnew y hy hvy u hu
    · rw [knownAfter, screen_of_unknown hi ht hk, hcwd] at hnew
      rcases List.mem_cons.mp hy with rfl | hy
      · rwa [← hcwd, ← Except.ok.inj (ht'.symm.trans hu)]
      · -- What is known of a file does not change when the time of another one is kept.
        have hother := hnew y hy hvy u hu
        rw [Checkpoint.get?_put] at hother
        split at hother
        · rename_i he
          exact (hother (congrArg some (FileSystem.time_eq_of_key_eq hh ht' hu he.symm))).elim
        · exact hother

/-- No file is visited twice. -/
theorem visited_once (hi : c.incremental = true) (hh : fs.HasProperHere)
    (hf : c.Follows sink k s xs) (ha : ∃ s', sink.acceptAll (xs.filterMap c.record?) s = .ok s')
    (hs : Steady fs xs) :
    ((xs.filterMap c.visited?).map fun text => fs.absolute ⟨text⟩).Nodup := by
  induction xs generalizing k s with
  | nil => simp
  | cons x xs ih =>
    obtain ⟨rfl, -, hf⟩ := hf
    obtain ⟨s', ha⟩ := ha
    rw [filterMap_cons_stop] at ha
    obtain ⟨s₁, hs₁, ha⟩ := Sink.acceptAll_append_eq_ok_iff.mp ha
    have hrest := ih (hf s₁ hs₁) ⟨s', ha⟩ hs.of_cons
    cases hv : c.visited? x with
    | none => rwa [List.filterMap_cons_none hv]
    | some text =>
      obtain ⟨t, ht, ht'⟩ := hs.times x List.mem_cons_self
      have hcwd := FileSystem.workingDirectory_congr (hs.here x List.mem_cons_self)
      have hk : x.known.get? x.files.workingDirectory x.path ≠ some t := fun hk => by
        simp [visited?, admission, screen_of_known hi ht hk, Admission.isSuppressed] at hv
      have hnew := unknown_of_visited hi hh (hf s₁ hs₁) ⟨s', ha⟩ hs.of_cons
      rw [knownAfter, screen_of_unknown hi ht hk, hcwd] at hnew
      rw [List.filterMap_cons_some hv, List.map_cons, List.nodup_cons]
      refine ⟨fun hm => ?_, hrest⟩
      obtain ⟨text', ht'', he⟩ := List.mem_map.mp hm
      obtain ⟨y, hy, hvy⟩ := List.mem_filterMap.mp ht''
      rw [text_of_visited? hvy, text_of_visited? hv] at he
      have hkey : fs.key y.path = fs.key x.path := congrArg Path.components he
      obtain ⟨u, -, hu⟩ := hs.times y (List.mem_cons_of_mem x hy)
      refine hnew y hy (by simp [hvy]) u hu ?_
      rw [Checkpoint.get?_put, if_pos hkey, FileSystem.time_eq_of_key_eq hh ht' hu hkey.symm]

end Crawler

end ArchiveLabels
