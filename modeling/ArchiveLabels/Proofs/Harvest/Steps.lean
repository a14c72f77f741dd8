import ArchiveLabels.CommandLine.Perform
import ArchiveLabels.Proofs.Crawl.Sink
import ArchiveLabels.Proofs.FileSystem.Frame

/-!
# The steps of a harvest

A harvest prepares a crawler, opens the file of records, crawls, closes the file, reports and saves
the state, in this order; each step may fail. `Harvester.run_crawl` and `Harvester.run_harvest` say
what comes of the files, and the lemmas behind them which files a step may change.
-/

namespace ArchiveLabels

open FileSystem (ChangesOnly)

/-! ## The file of records -/

namespace RecordOutput

variable {p : Path} {o : RecordOutput}

section

variable {P : FileSystem → Prop} (hp : ∀ fs bytes, P fs → P ((FileSystem.append p bytes).run fs).2)

include hp

/-- Bytes appended keep what a write keeps. -/
theorem files_append (ho : P o.files) (bytes : ByteArray) :
    P (Sink.left (o.append p bytes)).files := by
  have := hp o.files bytes ho
  unfold append
  rcases h : (FileSystem.append p bytes).run o.files with ⟨e | ⟨⟩, gs⟩ <;> rwa [h] at this

/-- A flush keeps what a write keeps, whether there is room or not. -/
theorem files_flush (ho : P o.files) : P (Sink.left (o.flush p)).files := by
  unfold flush
  split
  · exact ho
  · have := files_append hp ho o.waiting
    cases h : o.append p o.waiting <;> rwa [h] at this

/-- A put keeps it as well, also when it flushes a full buffer first. -/
theorem files_put (ho : P o.files) (bytes : ByteArray) : P (Sink.left (o.put p bytes)).files := by
  refine Sink.left_bind (P := fun o : RecordOutput => P o.files) ?_ fun r hr => ?_
  · unfold makeRoom
    split
    · exact files_flush hp ho
    · exact ho
  · split
    · exact files_append hp hr bytes
    · exact hr

theorem files_foldlM_put (ho : P o.files) (pieces : List ByteArray) :
    P (Sink.left (pieces.foldlM (put p) o)).files := by
  induction pieces generalizing o with
  | nil => exact ho
  | cons bytes pieces ih =>
    rw [List.foldlM_cons]
    exact Sink.left_bind (P := fun o : RecordOutput => P o.files) (files_put hp ho bytes)
      fun r hr => ih hr

end

/-- What holds of the files, and of all that bytes can be written to, holds when a record has been
handed on, be it by an error. -/
theorem files_accept {file : Option Path} {P : FileSystem → Prop}
    (hp : ∀ p ∈ file, ∀ fs bytes, P fs → P ((FileSystem.append p bytes).run fs).2) (ho : P o.files)
    (r : Record) : P (Sink.left ((sink file).accept r o)).files := by
  cases file with
  | none => exact ho
  | some p => exact files_foldlM_put (hp p rfl) ho (linePieces r)

/-- A record that is handed on changes the file of records and no other. -/
theorem changesOnly_accept {file : Option Path} {fs : FileSystem}
    (ho : ChangesOnly file.toList fs o.files) (r : Record) :
    ChangesOnly file.toList fs (Sink.left ((sink file).accept r o)).files := by
  refine files_accept (fun p hp gs bytes hg => hg.trans ?_) ho r
  rw [hp, Option.toList_some]
  exact FileSystem.changesOnly_append p bytes gs

end RecordOutput

/-! ## The crawl -/

namespace Crawler

/-- A crawl changes the file of records and no other. -/
theorem changesOnly_run (c : Crawler) (file : Option Path) (fs : FileSystem) (k : Checkpoint) :
    ChangesOnly file.toList fs
      (sinkOf (c.run (RecordOutput.sink file) (.start fs) k)).files :=
  sinkOf_run (P := fun o : RecordOutput => ChangesOnly file.toList fs o.files)
    (fun r _ ho => RecordOutput.changesOnly_accept ho r) (.refl file.toList fs) k

end Crawler

/-! ## Saving -/

/-- Writes a text to a file, in a directory that is made if need be. -/
def saveText (p : Path) (text : String) : Action CrawlError Unit := do
  (FileSystem.makeParent p).adapt fun (d, e) => .file d e
  (FileSystem.writeText p text).adapt (.file p)

theorem Checkpoint.save_eq (k : Checkpoint) (p : Path) : k.save p = saveText p k.fileText := rfl

theorem RecordCache.save_eq (c : RecordCache) (p : Path) : c.save p = saveText p c.fileText := rfl

section

variable {fs gs : FileSystem} {p : Path} {text : String}

/-- A text is saved in a directory made for it, over what was there. -/
theorem run_saveText (p : Path) (text : String) (fs : FileSystem) :
    (saveText p text).run fs =
      match (FileSystem.makeParent p).run fs with
      | (.error (d, e), gs) => (.error (.file d e), gs)
      | (.ok (), gs) =>
        match (FileSystem.writeText p text).run gs with
        | (.error e, hs) => (.error (.file p e), hs)
        | (.ok (), hs) => (.ok (), hs) := by
  refine (Action.run_bind _ _ fs).trans ?_
  rw [Action.run_adapt]
  rcases (FileSystem.makeParent p).run fs with ⟨⟨d, e⟩ | ⟨⟩, gs⟩
  · rfl
  dsimp only [Except.mapError]
  rw [Action.run_adapt]
  rcases (FileSystem.writeText p text).run gs with ⟨e | ⟨⟩, hs⟩ <;> rfl

/-- Saving changes the one file, whether it succeeds or not. -/
theorem changesOnly_saveText (p : Path) (text : String) : Action.ChangesOnly [p] (saveText p text) :=
  .bind (.adapt (FileSystem.changesOnly_makeParent p) _) fun _ =>
    .adapt (FileSystem.changesOnly_write p _) _

/-- A file that cannot be saved is left alone, like all others, or it holds a beginning of the text.
-/
theorem of_saveText_error {e : CrawlError} (h : (saveText p text).run fs = (.error e, gs)) :
    ChangesOnly [] fs gs ∨ ∃ n < (Text.Utf8.encode text).size, ∃ place t,
      gs.locate true p = .ok (.found place (.file ((Text.Utf8.encode text).extract 0 n) t)) := by
  have hparent : ChangesOnly [] fs _ := FileSystem.changesOnly_makeParent p fs
  rw [run_saveText] at h
  rcases hm : (FileSystem.makeParent p).run fs with ⟨⟨d, e⟩ | ⟨⟩, hs⟩
  · rw [hm] at h hparent
    exact .inl (by rwa [← (Prod.mk.inj h).2])
  · rw [hm] at h hparent
    dsimp only at h
    rcases hw : (FileSystem.writeText p text).run hs with ⟨e | ⟨⟩, ks⟩
    · rw [hw] at h
      obtain rfl := (Prod.mk.inj h).2
      refine (FileSystem.of_write_error hw).imp_left ?_
      rintro rfl
      exact hparent
    · rw [hw] at h
      cases h

/-- A file that is saved holds the text. -/
theorem found_of_saveText_ok (h : (saveText p text).run fs = (.ok (), gs)) :
    ∃ place t, gs.locate true p = .ok (.found place (.file (Text.Utf8.encode text) t)) := by
  rw [run_saveText] at h
  rcases hm : (FileSystem.makeParent p).run fs with ⟨⟨d, e⟩ | ⟨⟩, hs⟩
  · rw [hm] at h
    cases h
  · rw [hm] at h
    dsimp only at h
    rcases hw : (FileSystem.writeText p text).run hs with ⟨e | ⟨⟩, ks⟩
    · rw [hw] at h
      cases h
    · rw [hw] at h
      rw [← (Prod.mk.inj h).2]
      exact FileSystem.found_of_write_ok hw

end

/-! ## The steps -/

namespace Harvester

open ArchiveLabels.Action

variable {h : Harvester} {s : HarvestState} {fs gs : FileSystem}

/-- The crawler that a harvest prepares. -/
def crawler (h : Harvester) (fs : FileSystem) : Except CrawlError Crawler :=
  (Crawler.prepare fs h.policy h.config.crawl).map fun c => { c with manifest := h.manifest }

/-- The report of a harvest, given the records known after it. -/
def reportOf (h : Harvester) (cache : RecordCache) (o : CrawlOutcome) : Report :=
  h.report (CrawlItem.attach o.items (Integrity.check h.config.categories cache.records).problems)
    o.statistics

theorem run_closeRecords (h : Harvester) (o : RecordOutput) (fs : FileSystem) :
    (h.closeRecords o).run fs =
      match h.recordFile with
      | none => (.ok (), o.files)
      | some p =>
        match o.flush p with
        | .ok q => (.ok (), q.files)
        | .error (e, q) => (.error (.flushRecords e), q.files) := by
  unfold closeRecords
  cases h.recordFile with
  | none => rfl
  | some p =>
    cases hf : o.flush p with
    | ok q => simp only [hf]; rfl
    | error e => simp only [hf]; rfl

/-- The crawl of a cycle, step by step. -/
theorem run_crawl (h : Harvester) (s : HarvestState) (fs : FileSystem) :
    (h.crawl s).run fs =
      match h.crawler fs with
      | .error e => (.error (.prepare e), fs)
      | .ok c =>
        match h.openRecords.run fs with
        | (.error e, gs) => (.error e, gs)
        | (.ok (), gs) =>
          match c.run (RecordOutput.sink h.recordFile) (.start gs) s.checkpoint with
          | .error f => (.error (.crawl f.error), ((h.closeRecords f.sink).run gs).2)
          | .ok r =>
            match (h.closeRecords r.sink).run gs with
            | (.error e, hs) => (.error e, hs)
            | (.ok (), hs) => (.ok r, hs) := by
  unfold crawl crawler
  rw [run_get_bind]
  cases hc : Crawler.prepare fs h.policy h.config.crawl with
  | error e => rfl
  | ok c =>
    refine (run_bind h.openRecords _ fs).trans ?_
    rcases h.openRecords.run fs with ⟨e | ⟨⟩, gs⟩
    · rfl
    refine (run_get_bind _ gs).trans ?_
    simp only [Except.map]
    cases hr : Crawler.run { c with manifest := h.manifest } (RecordOutput.sink h.recordFile)
      (.start gs) s.checkpoint with
    | error f =>
      refine (run_bind (tryCatch (h.closeRecords f.sink) fun _ => pure ()) _ gs).trans ?_
      rw [run_tryCatch]
      dsimp only
      rcases (h.closeRecords f.sink).run gs with ⟨e | ⟨⟩, hs⟩ <;> rfl
    | ok r =>
      refine (run_bind (h.closeRecords r.sink) _ gs).trans ?_
      dsimp only
      rcases (h.closeRecords r.sink).run gs with ⟨e | ⟨⟩, hs⟩ <;> rfl

/-- A cycle crawls, reports and saves its state, in this order. -/
theorem run_harvest (h : Harvester) (s : HarvestState) (fs : FileSystem) :
    (h.harvest s).run fs =
      match (h.crawl s).run fs with
      | (.error e, gs) => (.error e, gs)
      | (.ok r, gs) =>
        let cache := h.refreshed gs s r.outcome
        match (h.writeReport (h.reportOf cache r.outcome)).run gs with
        | (.error e, hs) => (.error e, hs)
        | (.ok (), hs) =>
          match (h.saveState ⟨r.checkpoint, cache⟩).run hs with
          | (.error e, ks) => (.error e, ks)
          | (.ok (), ks) => (.ok ((h.reportOf cache r.outcome).summary, ⟨r.checkpoint, cache⟩), ks) := by
  refine (run_bind (h.crawl s) _ fs).trans ?_
  rcases (h.crawl s).run fs with ⟨e | r, gs⟩
  · rfl
  refine (run_get_bind _ gs).trans ?_
  refine (run_bind (h.writeReport (h.reportOf (h.refreshed gs s r.outcome) r.outcome)) _ gs).trans ?_
  dsimp only
  rcases (h.writeReport (h.reportOf (h.refreshed gs s r.outcome) r.outcome)).run gs with
    ⟨e | ⟨⟩, hs⟩
  · rfl
  refine (run_bind (h.saveState ⟨r.checkpoint, h.refreshed gs s r.outcome⟩) _ hs).trans ?_
  dsimp only
  rcases (h.saveState ⟨r.checkpoint, h.refreshed gs s r.outcome⟩).run hs with ⟨e | ⟨⟩, ks⟩ <;> rfl

/-- The checkpoint is saved before the records. -/
theorem run_saveState (h : Harvester) (s : HarvestState) (fs : FileSystem) :
    (h.saveState s).run fs =
      match h.config.crawl.checkpointPath with
      | none => (.ok (), fs)
      | some p =>
        match (s.checkpoint.save p).run fs with
        | (.error e, gs) => (.error (.saveCheckpoint e), gs)
        | (.ok (), gs) =>
          match (s.cache.save (RecordCache.pathFor p)).run gs with
          | (.error e, hs) => (.error (.saveRecords e), hs)
          | (.ok (), hs) => (.ok (), hs) := by
  unfold saveState
  cases h.config.crawl.checkpointPath with
  | none => rfl
  | some p =>
    refine (run_bind _ _ fs).trans ?_
    dsimp only
    rw [run_adapt]
    rcases (s.checkpoint.save p).run fs with ⟨e | ⟨⟩, gs⟩
    · rfl
    dsimp only [Except.mapError]
    rw [run_adapt]
    rcases (s.cache.save (RecordCache.pathFor p)).run gs with ⟨e | ⟨⟩, hs⟩ <;> rfl

/-- A cycle that fails leaves the state in memory as it was. -/
theorem run_harvestAgain (h : Harvester) (s : HarvestState) (fs : FileSystem) :
    (CommandLine.harvestAgain h s).run fs =
      match (h.harvest s).run fs with
      | (.ok (_, next), gs) => (next, gs)
      | (.error _, gs) => (s, gs) := by
  have hbind (f : Except HarvestError (Summary × HarvestState) → StateM FileSystem HarvestState) :
      ((h.harvest s).run >>= f).run fs = f ((h.harvest s).run fs).1 ((h.harvest s).run fs).2 := rfl
  refine (hbind _).trans ?_
  rcases (h.harvest s).run fs with ⟨e | ⟨summary, next⟩, gs⟩ <;> rfl

/-! ## What the steps change -/

theorem changesOnly_openRecords (h : Harvester) :
    Action.ChangesOnly h.recordFile.toList h.openRecords := by
  unfold openRecords
  cases h.recordFile with
  | none => exact .pure ()
  | some p =>
    exact .bind (.adapt (FileSystem.changesOnly_makeParent p) _) fun _ =>
      .adapt (FileSystem.changesOnly_openFile p) _

/-- The files are left as they are when the last record has been made, but for the bytes that
waited. -/
theorem changesOnly_closeRecords (h : Harvester) (o : RecordOutput) (fs : FileSystem) :
    ChangesOnly h.recordFile.toList o.files ((h.closeRecords o).run fs).2 := by
  rw [run_closeRecords]
  cases h.recordFile with
  | none => exact .refl [] o.files
  | some p =>
    have hflush := RecordOutput.files_flush (P := ChangesOnly [p] o.files) (p := p)
      (fun gs bytes hg => hg.trans (FileSystem.changesOnly_append p bytes gs)) (.refl [p] o.files)
    dsimp only
    cases hf : o.flush p with
    | ok q => rwa [hf] at hflush
    | error e => rwa [hf] at hflush

/-- The crawl changes no file but that of the records. -/
theorem changesOnly_crawl (h : Harvester) (s : HarvestState) :
    Action.ChangesOnly h.recordFile.toList (h.crawl s) := by
  intro fs
  have hopen := changesOnly_openRecords h fs
  rw [run_crawl]
  cases h.crawler fs with
  | error e => exact .refl _ fs
  | ok c =>
    dsimp only
    rcases ho : h.openRecords.run fs with ⟨e | ⟨⟩, gs⟩
    · rwa [ho] at hopen
    rw [ho] at hopen
    have hrun := hopen.trans (Crawler.changesOnly_run c h.recordFile gs s.checkpoint)
    dsimp only
    cases hr : c.run (RecordOutput.sink h.recordFile) (.start gs) s.checkpoint with
    | error f =>
      rw [hr] at hrun
      exact hrun.trans (changesOnly_closeRecords h f.sink gs)
    | ok r =>
      rw [hr] at hrun
      have := hrun.trans (changesOnly_closeRecords h r.sink gs)
      dsimp only
      rcases hc : (h.closeRecords r.sink).run gs with ⟨e | ⟨⟩, hs⟩ <;> rwa [hc] at this

theorem changesOnly_writeReport (h : Harvester) (r : Report) :
    Action.ChangesOnly h.reportFile.toList (h.writeReport r) := by
  unfold writeReport
  cases h.reportFile with
  | none => exact FileSystem.changesOnly_print _
  | some p =>
    exact .bind (.adapt (FileSystem.changesOnly_makeParent p) _) fun _ =>
      .bind (.adapt (FileSystem.changesOnly_writeWith p _) _) fun _ =>
        .adapt (FileSystem.changesOnly_append p _) _

/-! ## Where errors come from -/

/-- The error is not one of saving the state. -/
def IsBeforeSaving (e : HarvestError) : Prop :=
  ∀ ce, e ≠ .saveCheckpoint ce ∧ e ≠ .saveRecords ce

theorem throws_openRecords (h : Harvester) : Action.Throws IsBeforeSaving h.openRecords := by
  unfold openRecords
  cases h.recordFile with
  | none => exact .pure ()
  | some p =>
    exact .bind (.adapt (fun _ _ => ⟨nofun, nofun⟩) _) fun _ =>
      .adapt (fun _ _ => ⟨nofun, nofun⟩) _

theorem throws_closeRecords (h : Harvester) (o : RecordOutput) :
    Action.Throws IsBeforeSaving (h.closeRecords o) := by
  intro fs e gs he
  rw [run_closeRecords] at he
  split at he
  · cases he
  · split at he
    · cases he
    · rw [← Except.error.inj (Prod.mk.inj he).1]
      exact fun _ => ⟨nofun, nofun⟩

/-- What goes wrong in the crawl goes wrong before the state is saved. -/
theorem throws_crawl (h : Harvester) (s : HarvestState) :
    Action.Throws IsBeforeSaving (h.crawl s) := by
  intro fs e gs he
  rw [run_crawl] at he
  split at he
  · rw [← Except.error.inj (Prod.mk.inj he).1]
    exact fun _ => ⟨nofun, nofun⟩
  split at he
  · rename_i ho
    rw [← Except.error.inj (Prod.mk.inj he).1]
    exact throws_openRecords h _ _ _ ho
  split at he
  · rw [← Except.error.inj (Prod.mk.inj he).1]
    exact fun _ => ⟨nofun, nofun⟩
  · split at he
    · rename_i hc
      rw [← Except.error.inj (Prod.mk.inj he).1]
      exact throws_closeRecords h _ _ _ _ hc
    · cases he

theorem throws_writeReport (h : Harvester) (r : Report) :
    Action.Throws IsBeforeSaving (h.writeReport r) := by
  unfold writeReport
  cases h.reportFile with
  | none => exact fun _ _ _ he => by cases he
  | some p =>
    exact .bind (.adapt (fun _ _ => ⟨nofun, nofun⟩) _) fun _ =>
      .bind (.adapt (fun _ _ => ⟨nofun, nofun⟩) _) fun _ => .adapt (fun _ _ => ⟨nofun, nofun⟩) _

end Harvester

end ArchiveLabels
