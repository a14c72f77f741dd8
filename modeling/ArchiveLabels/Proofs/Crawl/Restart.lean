import ArchiveLabels.Proofs.Harvest.Failure
import ArchiveLabels.Proofs.Json.Decode
import ArchiveLabels.Proofs.Json.RoundTrip
import ArchiveLabels.Proofs.Path.Order
import ArchiveLabels.Proofs.Time.RoundTrip

/-!
# Checkpoints across restarts

Between observations of files a checkpoint may be saved and loaded again, any number of times
(`Checkpoint.history`). This makes no difference : it knows of each file the time at which the file
was last observed (`Checkpoint.lastSeen`), under whatever spelling, and what is loaded is what was
saved (`Checkpoint.recalls_of_history`). The keys of a checkpoint ascend and its times are such as
dates can have (`Checkpoint.Sound`), so that its text is read back as it was written
(`Checkpoint.parse?_fileText`).
-/

namespace ArchiveLabels

/-! ## Files that were saved -/

namespace FileSystem

/-- What was saved can be read. -/
theorem readText_of_saveText_ok {fs gs : FileSystem} {p : Path} {text : String}
    (h : (saveText p text).run fs = (.ok (), gs)) : gs.readText p = .ok text := by
  obtain ⟨place, t, hl⟩ := found_of_saveText_ok h
  exact readText_of_read (read_eq_ok_iff.mpr ⟨place, t, hl⟩)

end FileSystem

/-- An action that succeeds has a result and leaves files of its own. -/
theorem Action.exists_run_of_toBool {ε α : Type} {x : Action ε α} {fs : FileSystem}
    (h : (x.run fs).1.toBool = true) : ∃ a gs, x.run fs = (.ok a, gs) := by
  rcases hrun : x.run fs with ⟨e | a, gs⟩
  · rw [hrun] at h
    cases h
  · exact ⟨a, gs, rfl⟩

namespace Checkpoint

variable {cwd p q : Path} {t : Timestamp} {k : Checkpoint} {fs gs : FileSystem} {file : Path}

/-! ## Texts of checkpoints -/

/-- A checkpoint whose keys ascend and whose times dates can have. -/
structure Sound (k : Checkpoint) : Prop where
  ascending : Table.Ascending Path.rank k.entries
  representable : ∀ e ∈ k.entries, e.2.IsRepresentable

theorem sound_empty : empty.Sound := ⟨.nil, fun _ he => nomatch he⟩

/-- A moment that can be written keeps the checkpoint sound. -/
theorem Sound.put (hk : k.Sound) (cwd p : Path) (ht : t.IsRepresentable) :
    (k.put cwd p t).Sound where
  ascending := hk.ascending.put Path.ranked (Path.absolute cwd p) t
  representable e he := by
    rcases Table.mem_put Path.ranked he with ⟨-, het⟩ | he
    · rwa [het]
    · exact hk.representable e he

/-- An observation of a moment that can be written keeps the checkpoint sound. -/
theorem Sound.observe (hk : k.Sound) (cwd p : Path) (ht : t.IsRepresentable) :
    (k.observe cwd p t).1.Sound := by
  unfold Checkpoint.observe
  split
  · exact hk
  · exact hk.put cwd p ht

theorem isPlain_toJson (k : Checkpoint) : k.toJson.IsPlain := by
  refine Json.isPlain_obj.mpr fun f hf => ?_
  obtain ⟨e, -, rfl⟩ := List.mem_map.mp hf
  exact Json.isPlain_str _

/-- An entry reads back, its moment from its written form. -/
theorem entryOfJson?_written (ht : t.IsRepresentable) :
    entryOfJson? (p.text, .str t.written) = some (p, t) := by
  simp only [entryOfJson?, Json.string?, Option.bind_some, Timestamp.parse?_written ht,
    Option.bind_eq_bind, Option.pure_def]

/-- A sound checkpoint reads back from its rendering. -/
theorem ofJson?_toJson (hk : k.Sound) : ofJson? k.toJson = some k := by
  rw [toJson, ofJson?, Json.mapM_map fun e he => entryOfJson?_written (hk.representable e he),
    Option.map_some, Table.ofList_of_ascending Path.ranked hk.ascending]

/-- A checkpoint is read as it was written. -/
theorem parse?_fileText (hk : k.Sound) : parse? k.fileText = some k := by
  rw [parse?, fileText, Json.parse?_pretty k.isPlain_toJson, Option.bind_some, ofJson?_toJson hk]

/-- What was saved is loaded. -/
theorem readCheckpoint_of_save (hk : k.Sound) (h : (k.save file).run fs = (.ok (), gs)) :
    gs.readCheckpoint file = .ok k := by
  rw [save_eq] at h
  rw [FileSystem.readCheckpoint, FileSystem.readText_of_saveText_ok h]
  simp only [parse?_fileText hk]

/-! ## Observing -/

/-- Paths that are kept under one key. -/
def SameKey (cwd p q : Path) : Prop := (Path.absolute cwd p).same (Path.absolute cwd q) = true

instance : Decidable (SameKey cwd p q) := inferInstanceAs (Decidable (_ = true))

/-- Keys are the same when they rank the same. -/
theorem sameKey_iff :
    SameKey cwd p q ↔ (Path.absolute cwd p).rank = (Path.absolute cwd q).rank := by
  rw [Path.rank_eq_iff, SameKey, Path.same, beq_iff_eq]

/-- A put changes the time of its own key. -/
theorem get?_put_iff (k : Checkpoint) (cwd p q : Path) (t : Timestamp) :
    (k.put cwd p t).get? cwd q = if SameKey cwd q p then some t else k.get? cwd q := by
  rw [get?, put, Table.get?_put Path.ranked]
  by_cases h : SameKey cwd q p
  · rw [if_pos h, if_pos (sameKey_iff.mp h)]
  · rw [if_neg h, if_neg (mt sameKey_iff.mpr h)]
    rfl

/-- An observation sets the time of the file, and no other. -/
theorem get?_observe (k : Checkpoint) (cwd p q : Path) (t : Timestamp) :
    (k.observe cwd p t).1.get? cwd q = if SameKey cwd q p then some t else k.get? cwd q := by
  unfold observe
  split
  · rename_i hp
    split
    · rename_i hq
      rw [← hp]
      exact Table.get?_eq_of_rank_eq Path.ranked (sameKey_iff.mp hq) k.entries
    · rfl
  · exact get?_put_iff k cwd p q t

theorem snd_observe_iff (k : Checkpoint) (cwd p : Path) (t : Timestamp) :
    (k.observe cwd p t).2 = true ↔ k.get? cwd p = some t := by
  unfold observe
  split <;> simp [*]

/-! ## Histories -/

/-- What happens to a checkpoint. -/
inductive Event where
  /-- A file is observed with a time. -/
  | observed (p : Path) (t : Timestamp)
  /-- The checkpoint is saved to a file and loaded from it. -/
  | restarted (file : Path)

/-- Saves a checkpoint and loads what was saved. -/
def restart (k : Checkpoint) (file : Path) : Action CrawlError Checkpoint := do
  k.save file
  (← get).readCheckpoint file

/-- The checkpoint after an event. -/
def after (cwd : Path) (k : Checkpoint) : Event → Action CrawlError Checkpoint
  | .observed p t => pure (k.observe cwd p t).1
  | .restarted file => k.restart file

/-- The checkpoint after events in their order. -/
def history (cwd : Path) (es : List Event) : Action CrawlError Checkpoint :=
  es.foldlM (after cwd) empty

/-- The time that an event gives to a file. -/
def Event.timeOf? (cwd p : Path) : Event → Option Timestamp
  | .observed q t => if SameKey cwd p q then some t else none
  | .restarted _ => none

/-- The time at which a file was last observed, under this or another spelling. -/
def lastSeen (cwd p : Path) (es : List Event) : Option Timestamp :=
  es.reverse.findSome? (Event.timeOf? cwd p)

/-- What a checkpoint knows that has seen the given events : of each file the time it was last
observed with. So it is by this time that an observation is found to be no news. The observation
then sets the time of this file and of no other, and saving and loading change nothing. -/
structure Recalls (cwd : Path) (es : List Event) (k : Checkpoint) : Prop where
  get?_eq : ∀ p, k.get? cwd p = lastSeen cwd p es
  unchanged_iff : ∀ p t, (k.observe cwd p t).2 = true ↔ lastSeen cwd p es = some t
  get?_observe : ∀ p t q, (k.observe cwd p t).1.get? cwd q =
    if SameKey cwd q p then some t else k.get? cwd q
  loaded : ∀ file fs gs, (k.save file).run fs = (.ok (), gs) → gs.readCheckpoint file = .ok k

/-- The events so far have left a checkpoint that keeps the time of each file. -/
structure Kept (cwd : Path) (es : List Event) (k : Checkpoint) : Prop where
  sound : k.Sound
  get?_eq : ∀ p, k.get? cwd p = lastSeen cwd p es

/-- What is kept along a history recalls the times seen in it. -/
theorem Kept.recalls {es : List Event} (h : Kept cwd es k) : Recalls cwd es k where
  get?_eq := h.get?_eq
  unchanged_iff p t := by rw [snd_observe_iff, h.get?_eq]
  get?_observe p t q := get?_observe k cwd p q t
  loaded _ _ _ hsave := readCheckpoint_of_save h.sound hsave

/-- The last event about a path counts. -/
theorem lastSeen_concat (cwd p : Path) (es : List Event) (e : Event) :
    lastSeen cwd p (es ++ [e]) = (e.timeOf? cwd p).or (lastSeen cwd p es) := by
  rw [lastSeen, List.reverse_append, List.reverse_singleton, List.singleton_append,
    List.findSome?_cons, lastSeen]
  cases e.timeOf? cwd p <;> rfl

/-- An observation keeps on keeping. -/
theorem Kept.observed {es : List Event} (h : Kept cwd es k) (p : Path) (ht : t.IsRepresentable) :
    Kept cwd (es ++ [.observed p t]) (k.observe cwd p t).1 where
  sound := h.sound.observe cwd p ht
  get?_eq q := by
    rw [lastSeen_concat, Checkpoint.get?_observe, Event.timeOf?, h.get?_eq]
    split <;> rfl

/-- A restart loses nothing of what is kept. -/
theorem Kept.restarted {es : List Event} (h : Kept cwd es k) (file : Path) :
    Kept cwd (es ++ [.restarted file]) k where
  sound := h.sound
  get?_eq q := by
    rw [lastSeen_concat, h.get?_eq]
    rfl

/-- A restart saves the checkpoint and reads it back. -/
theorem run_restart (k : Checkpoint) (file : Path) (fs : FileSystem) :
    (k.restart file).run fs =
      match (k.save file).run fs with
      | (.ok (), gs) => (gs.readCheckpoint file, gs)
      | (.error e, gs) => (.error e, gs) := by
  refine (Action.run_bind _ _ fs).trans ?_
  rcases (k.save file).run fs with ⟨e | ⟨⟩, gs⟩ <;> rfl

/-- A restart leaves the checkpoint as it is, unless it cannot be saved. -/
theorem run_restart_of_sound (hk : k.Sound) (file : Path) (fs : FileSystem) :
    (k.restart file).run fs =
      match (k.save file).run fs with
      | (.ok (), gs) => (.ok k, gs)
      | (.error e, gs) => (.error e, gs) := by
  rw [run_restart]
  rcases hs : (k.save file).run fs with ⟨e | ⟨⟩, gs⟩
  · rfl
  · simp only [readCheckpoint_of_save hk hs]

/-- Only saving can fail : a checkpoint that the events before have left cannot be saved. -/
def FailsToSave (cwd : Path) (fs : FileSystem) (es : List Event) (e : CrawlError)
    (gs : FileSystem) : Prop :=
  ∃ before file after k hs, es = before ++ .restarted file :: after ∧
    (history cwd before).run fs = (.ok k, hs) ∧ (k.save file).run hs = (.error e, gs)

theorem history_concat (cwd : Path) (es : List Event) (e : Event) (fs : FileSystem) :
    (history cwd (es ++ [e])).run fs =
      match (history cwd es).run fs with
      | (.ok k, gs) => (after cwd k e).run gs
      | (.error e, gs) => (.error e, gs) := by
  have hconcat : history cwd (es ++ [e]) = history cwd es >>= fun k => after cwd k e := by
    simp only [history, List.foldlM_append, List.foldlM_cons, List.foldlM_nil, bind_pure]
  rw [hconcat, Action.run_bind]
  rcases (history cwd es).run fs with ⟨_ | k, gs⟩ <;> rfl

/-- A history that cannot be saved stays so, however it goes on. -/
theorem FailsToSave.concat {es : List Event} {e : CrawlError} (h : FailsToSave cwd fs es e gs)
    (x : Event) : FailsToSave cwd fs (es ++ [x]) e gs := by
  obtain ⟨before, file, after, k, hs, rfl, hrun⟩ := h
  exact ⟨before, file, after ++ [x], k, hs, by simp, hrun⟩

/-- The events so far, with the times they bring, have left a checkpoint that keeps them, or they
have come to a save that failed. -/
theorem kept_or_failsToSave (cwd : Path) (es : List Event)
    (hes : ∀ p t, .observed p t ∈ es → t.IsRepresentable) (fs : FileSystem) :
    match (history cwd es).run fs with
    | (.ok k, _) => Kept cwd es k
    | (.error e, gs) => FailsToSave cwd fs es e gs := by
  induction es using List.reverseRecOn with
  | nil => exact ⟨sound_empty, fun _ => rfl⟩
  | append_singleton es x ih =>
    have ih := ih fun p t h => hes p t (List.mem_append_left _ h)
    rw [history_concat]
    rcases hrun : (history cwd es).run fs with ⟨e | k, gs⟩
    · rw [hrun] at ih
      exact ih.concat x
    · rw [hrun] at ih
      cases x with
      | observed p t => exact ih.observed p (hes p t (by simp))
      | restarted file =>
        change match (k.restart file).run gs with
          | (.ok k, _) => _
          | (.error e, gs) => _
        rw [run_restart_of_sound ih.sound]
        rcases hs : (k.save file).run gs with ⟨e | ⟨⟩, hs'⟩
        · exact ⟨es, file, [], k, gs, rfl, hrun, hs⟩
        · exact ih.restarted file

/-- A checkpoint knows of each file the time at which the file was last observed, under whatever
spelling and however often the checkpoint was saved and loaded in between. Loading what was saved
never fails. -/
theorem recalls_of_history (cwd : Path) (es : List Event)
    (hes : ∀ p t, .observed p t ∈ es → t.IsRepresentable) (fs : FileSystem) :
    (∀ k gs, (history cwd es).run fs = (.ok k, gs) → Recalls cwd es k) ∧
      ∀ e gs, (history cwd es).run fs = (.error e, gs) → FailsToSave cwd fs es e gs := by
  have hkept := kept_or_failsToSave cwd es hes fs
  constructor
  · intro k gs hrun
    rw [hrun] at hkept
    exact hkept.recalls
  · intro e gs hrun
    rwa [hrun] at hkept

/-- A file seen just before 1970 and another of the year 10000, with a restart behind each. -/
def restarts : List Event :=
  [.observed ⟨"./b//a"⟩ ⟨-1, 1⟩, .restarted ⟨"/s/k.json"⟩, .observed ⟨"c"⟩ ⟨253402300800, 999⟩,
    .restarted ⟨"/s/k.json"⟩]

set_option maxRecDepth 100000 in
/-- Under its absolute spelling, the first file is known by its time after both restarts. -/
theorem recalls_of_history_restarts :
    ∃ k gs, (history ⟨"/d"⟩ restarts).run default = (.ok k, gs) ∧ Recalls ⟨"/d"⟩ restarts k ∧
      (k.observe ⟨"/d"⟩ ⟨"/d/b/a"⟩ ⟨-1, 1⟩).2 = true := by
  have htimes : ∀ p t, .observed p t ∈ restarts → t.IsRepresentable := by
    intro p t h
    simp only [restarts, List.mem_cons, Event.observed.injEq, reduceCtorEq, List.not_mem_nil,
      or_false, false_or] at h
    rcases h with ⟨-, rfl⟩ | ⟨-, rfl⟩
    · exact ⟨by decide, by decide +kernel⟩
    · exact ⟨by decide, by decide +kernel⟩
  obtain ⟨k, gs, hrun⟩ := Action.exists_run_of_toBool
    (show ((history ⟨"/d"⟩ restarts).run default).1.toBool = true by decide +kernel)
  have hrecalls := (recalls_of_history ⟨"/d"⟩ restarts htimes default).1 k gs hrun
  have hseen : lastSeen ⟨"/d"⟩ ⟨"/d/b/a"⟩ restarts = some ⟨-1, 1⟩ := by decide +kernel
  exact ⟨k, gs, hrun, hrecalls, (hrecalls.unchanged_iff _ _).mpr hseen⟩

end Checkpoint

end ArchiveLabels
