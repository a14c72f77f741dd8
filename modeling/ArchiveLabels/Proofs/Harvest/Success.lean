import ArchiveLabels.Proofs.FileSystem.Matching
import ArchiveLabels.Proofs.Harvest.Steps

/-!
# Harvests that succeed

Once the file of records is open, records that are added to it change nothing in the shape of the
file system, and where there is room they can be added without end (`RecordOutput.alike_accept`,
`RecordOutput.exists_accept`). So whether a harvest succeeds does not depend on the state that it
starts from, if there is room (`Harvester.Succeeds.of_state`). `Harvester.Crawled` is what a harvest
that succeeds has done when it has crawled.
-/

namespace ArchiveLabels

open FileSystem (Alike ChangesOnly)
open ArchiveLabels.Action (Matches)

/-! ## The file of records -/

namespace RecordOutput

/-- The file of records is there, if there is to be one, and entries stand in the order of their
names. -/
structure Stands (file : Option Path) (fs : FileSystem) : Prop where
  ordered : fs.root.Ordered
  found : ∀ p ∈ file, ∃ place content t, fs.locate true p = .ok (.found place (.file content t))

variable {file : Option Path} {fs gs : FileSystem} {p : Path} {o : RecordOutput}

/-- The file still stands in file systems alike. -/
theorem Stands.of_alike (h : Stands file fs) (ha : Alike fs gs) : Stands file gs where
  ordered := ha.ordered h.ordered
  found p hp := by
    obtain ⟨place, content, t, hl⟩ := h.found p hp
    obtain ⟨e, he, hb⟩ := ha.found hl
    obtain ⟨content', t', rfl⟩ := Entry.exists_file_of_blank hb
    exact ⟨place, content', t', he⟩

theorem files_sink (file : Option Path) (o : RecordOutput) : (sink file).files o = o.files := by
  cases file <;> rfl

/-- Bytes are written to a file that stands. -/
theorem Stands.alike_append (h : Stands file fs) (hp : p ∈ file) (ha : Alike fs gs)
    (bytes : ByteArray) : Alike fs ((FileSystem.append p bytes).run gs).2 := by
  have hg := h.of_alike ha
  obtain ⟨place, content, t, hl⟩ := hg.found p hp
  exact ha.trans (FileSystem.alike_append hg.ordered hl bytes)

/-- A record that is handed on keeps the file system alike. -/
theorem alike_accept (h : Stands file fs) (r : Record) (o : RecordOutput)
    (ha : Alike fs o.files) : Alike fs (Sink.left ((sink file).accept r o)).files :=
  files_accept (P := Alike fs) (fun _ hp _ bytes hg => h.alike_append hp hg bytes) ha r

section

variable {P : FileSystem → Prop}
  (hp : ∀ fs bytes, P fs → ∃ gs, (FileSystem.append p bytes).run fs = (.ok (), gs) ∧ P gs)

include hp

/-- With room enough, bytes are appended. -/
theorem exists_append (ho : P o.files) (bytes : ByteArray) :
    ∃ q, o.append p bytes = .ok q ∧ P q.files := by
  obtain ⟨gs, hrun, hg⟩ := hp o.files bytes ho
  exact ⟨{ o with files := gs }, by rw [append, hrun], hg⟩

/-- With room enough a flush succeeds. -/
theorem exists_flush (ho : P o.files) : ∃ q, o.flush p = .ok q ∧ P q.files := by
  unfold flush
  split
  · exact ⟨o, rfl, ho⟩
  · obtain ⟨q, hq, hf⟩ := exists_append hp ho o.waiting
    exact ⟨{ q with waiting := .empty }, by rw [hq]; rfl, hf⟩

/-- With room enough a put succeeds, also one that flushes first. -/
theorem exists_put (ho : P o.files) (bytes : ByteArray) :
    ∃ q, o.put p bytes = .ok q ∧ P q.files := by
  obtain ⟨r, hr, hf⟩ : ∃ r, o.makeRoom p bytes.size = .ok r ∧ P r.files := by
    unfold makeRoom
    split
    · exact exists_flush hp ho
    · exact ⟨o, rfl, ho⟩
  simp only [put, hr, bind, Except.bind]
  split
  · exact exists_append hp hf bytes
  · exact ⟨_, rfl, hf⟩

theorem exists_foldlM_put (ho : P o.files) (pieces : List ByteArray) :
    ∃ q, pieces.foldlM (put p) o = .ok q ∧ P q.files := by
  induction pieces generalizing o with
  | nil => exact ⟨o, rfl, ho⟩
  | cons bytes pieces ih =>
    obtain ⟨r, hr, hf⟩ := exists_put hp ho bytes
    obtain ⟨q, hq, hg⟩ := ih hf
    exact ⟨q, by rw [List.foldlM_cons, hr]; exact hq, hg⟩

end

/-- Where there is room, bytes can be written to a file that stands. -/
theorem Stands.exists_append (h : Stands file fs) (hu : fs.Unlimited) (hp : p ∈ file)
    (ha : Alike fs gs) (bytes : ByteArray) :
    ∃ hs, (FileSystem.append p bytes).run gs = (.ok (), hs) ∧ Alike fs hs := by
  have hg := h.of_alike ha
  obtain ⟨place, content, t, hl⟩ := hg.found p hp
  obtain ⟨hs, hrun, ha'⟩ := FileSystem.alike_writeWith hg.ordered hl (· ++ bytes)
  exact ⟨hs, (FileSystem.run_append_of_unlimited (ha.unlimited hu) p bytes).trans hrun, ha.trans ha'⟩

/-- Where there is room, a record can be handed on. -/
theorem exists_accept (h : Stands file fs) (hu : fs.Unlimited) (r : Record) (o : RecordOutput)
    (ha : Alike fs o.files) : ∃ q, (sink file).accept r o = .ok q ∧ Alike fs q.files := by
  cases file with
  | none => exact ⟨o, rfl, ha⟩
  | some p =>
    exact exists_foldlM_put (fun _ bytes hg => h.exists_append hu rfl hg bytes) ha (linePieces r)

end RecordOutput

open RecordOutput (Stands)

/-! ## The crawl -/

namespace Crawler

variable {c : Crawler} {file : Option Path} {fs : FileSystem} {k : Checkpoint}

/-- Files are alike throughout a crawl. -/
theorem alike_of_tour (h : Stands file fs) :
    ∀ l ∈ c.tour (RecordOutput.sink file) (.start fs) k,
      Alike fs l.files ∧ ∀ x ∈ l.stops, Alike fs x.files := by
  intro l hl
  obtain ⟨⟨o, ho, hfiles⟩, hstops⟩ := sink_of_legs (P := fun o : RecordOutput => Alike fs o.files)
    (RecordOutput.alike_accept h) (r := ⟨.empty, k, .start fs⟩) (.refl fs) c.targets l hl
  rw [RecordOutput.files_sink] at hfiles
  refine ⟨hfiles ▸ ho, fun x hx => ?_⟩
  obtain ⟨o, ho, hfiles⟩ := hstops x hx
  rw [RecordOutput.files_sink] at hfiles
  exact hfiles ▸ ho

/-- A crawl leaves the file system alike, however many records it writes. -/
theorem alike_of_run (h : Stands file fs) {q : CrawlProgress RecordOutput}
    (hq : c.run (RecordOutput.sink file) (.start fs) k = .ok q) : Alike fs q.sink.files := by
  have := sinkOf_run (P := fun o : RecordOutput => Alike fs o.files) (c := c)
    (RecordOutput.alike_accept h) (s := .start fs) (.refl fs) k
  rwa [hq] at this

/-- Where there is room, it does not depend on the times that are known whether a crawl succeeds. -/
theorem exists_run_of_run (h : Stands file fs) (hu : fs.Unlimited)
    (hq : ∃ q, c.run (RecordOutput.sink file) (.start fs) k = .ok q) (k' : Checkpoint) :
    ∃ q, c.run (RecordOutput.sink file) (.start fs) k' = .ok q := by
  have hiff (k : Checkpoint) : (∃ q, c.run (RecordOutput.sink file) (.start fs) k = .ok q) ↔
      ∀ target ∈ c.targets, ∃ ps, fs.candidates c.filters target.2 target.1 = .ok ps :=
    exists_run_iff (P := fun o : RecordOutput => Alike fs o.files)
      (RecordOutput.exists_accept h hu)
      (fun o ho => by rwa [RecordOutput.files_sink]) (.refl fs) k
  exact (hiff k').mpr ((hiff k).mp hq)

end Crawler

/-! ## The harvest -/

theorem matches_saveText (p : Path) (text text' : String) :
    Matches (saveText p text) (saveText p text') :=
  .bind (.adapt (FileSystem.matches_makeParent p) _) fun _ =>
    .adapt (FileSystem.matches_write p _ _) _

namespace Harvester

variable {h : Harvester} {s s' next : HarvestState} {fs gs : FileSystem} {c : Crawler}

/-- The files when the crawl starts : the file of records has been opened. -/
def opened (h : Harvester) (fs : FileSystem) : FileSystem := (h.openRecords.run fs).2

theorem stands_of_openRecords (ho : fs.root.Ordered) (hrun : h.openRecords.run fs = (.ok (), gs)) :
    Stands h.recordFile gs where
  ordered := by
    have := (changesOnly_openRecords h fs).ordered ho
    rwa [hrun] at this
  found p hp := by
    unfold openRecords at hrun
    rw [Option.mem_def.mp hp] at hrun
    replace hrun := (Action.run_bind _ _ fs).symm.trans hrun
    rw [Action.run_adapt] at hrun
    rcases hm : (FileSystem.makeParent p).run fs with ⟨⟨d, e⟩ | ⟨⟩, hs⟩
    · rw [hm] at hrun
      cases hrun
    rw [hm] at hrun
    dsimp only [Except.mapError] at hrun
    rw [Action.run_adapt, FileSystem.openFile, Action.run_get_bind] at hrun
    split at hrun
    · rename_i place content t hl
      obtain rfl := (Prod.mk.inj hrun).2
      exact ⟨place, content, t, hl⟩
    · rcases hw : (FileSystem.create p).run hs with ⟨e | ⟨⟩, ks⟩
      · rw [hw] at hrun
        cases hrun
      · rw [hw] at hrun
        obtain rfl := (Prod.mk.inj hrun).2
        obtain ⟨place, t, hl⟩ := FileSystem.found_of_create_ok hw
        exact ⟨place, _, t, hl⟩

theorem matches_writeReport (h : Harvester) (r r' : Report) :
    Matches (h.writeReport r) (h.writeReport r') := by
  unfold writeReport
  cases h.reportFile with
  | none => exact FileSystem.matches_print _ _
  | some p =>
    exact .bind (.adapt (FileSystem.matches_makeParent p) _) fun _ =>
      .bind (.adapt (FileSystem.matches_writeWith p _ _) _) fun _ =>
        .adapt (FileSystem.matches_append p _ _) _

/-- A state is saved alike, whatever it holds. -/
theorem matches_saveState (h : Harvester) (s s' : HarvestState) :
    Matches (h.saveState s) (h.saveState s') := by
  unfold saveState
  cases h.config.crawl.checkpointPath with
  | none => exact .pure ()
  | some p =>
    exact .bind (.adapt (matches_saveText p _ _) _) fun _ => .adapt (matches_saveText _ _ _) _

/-- What a harvest that succeeds has done when it has crawled : it has found the crawler `c`, opened
the file of records, and crawled with the result `r`, which left the files `gs`. -/
structure Crawled (h : Harvester) (s : HarvestState) (fs : FileSystem) (c : Crawler)
    (r : CrawlProgress RecordOutput) (gs : FileSystem) : Prop where
  crawler : h.crawler fs = .ok c
  opens : h.openRecords.run fs = (.ok (), h.opened fs)
  stands : Stands h.recordFile (h.opened fs)
  run : c.run (RecordOutput.sink h.recordFile) (.start (h.opened fs)) s.checkpoint = .ok r
  alike : Alike (h.opened fs) gs

/-- Closing the records leaves the file system alike, whether it succeeds or not. -/
theorem alike_closeRecords {o : RecordOutput} (hs : Stands h.recordFile fs) (ha : Alike fs o.files)
    (gs : FileSystem) : Alike fs ((h.closeRecords o).run gs).2 := by
  rw [run_closeRecords]
  cases hf : h.recordFile with
  | none => exact ha
  | some p =>
    have hflush := RecordOutput.files_flush (P := Alike fs)
      (fun _ bytes hg => hs.alike_append hf hg bytes) ha
    dsimp only
    cases hq : o.flush p <;> rwa [hq] at hflush

/-- With room enough the records can be closed. -/
theorem exists_closeRecords {o : RecordOutput} (hs : Stands h.recordFile fs) (hu : fs.Unlimited)
    (ha : Alike fs o.files) (gs : FileSystem) :
    ∃ ks, (h.closeRecords o).run gs = (.ok (), ks) ∧ Alike fs ks := by
  rw [run_closeRecords]
  cases hf : h.recordFile with
  | none => exact ⟨o.files, rfl, ha⟩
  | some p =>
    obtain ⟨q, hq, hg⟩ := RecordOutput.exists_flush
      (fun _ bytes hg => hs.exists_append hu hf hg bytes) ha
    exact ⟨q.files, by simp only [hq], hg⟩

variable {r : CrawlProgress RecordOutput}

/-- The steps of a crawl that succeeds. -/
theorem of_run_crawl (hrun : (h.crawl s).run fs = (.ok r, gs)) :
    ∃ c, h.crawler fs = .ok c ∧ h.openRecords.run fs = (.ok (), h.opened fs) ∧
      c.run (RecordOutput.sink h.recordFile) (.start (h.opened fs)) s.checkpoint = .ok r ∧
      (h.closeRecords r.sink).run (h.opened fs) = (.ok (), gs) := by
  rw [run_crawl] at hrun
  cases hc : h.crawler fs with
  | error e =>
    rw [hc] at hrun
    cases hrun
  | ok c =>
    rw [hc] at hrun
    dsimp only at hrun
    have hfiles : h.opened fs = (h.openRecords.run fs).2 := rfl
    rcases hopen : h.openRecords.run fs with ⟨e | ⟨⟩, hs⟩
    · rw [hopen] at hrun
      cases hrun
    rw [hopen] at hrun hfiles
    obtain rfl : h.opened fs = hs := hfiles
    dsimp only at hrun
    cases hr : c.run (RecordOutput.sink h.recordFile) (.start (h.opened fs)) s.checkpoint with
    | error f =>
      rw [hr] at hrun
      cases hrun
    | ok q =>
      rw [hr] at hrun
      dsimp only at hrun
      rcases hclose : (h.closeRecords q.sink).run (h.opened fs) with ⟨e | ⟨⟩, ks⟩
      · rw [hclose] at hrun
        cases hrun
      · rw [hclose] at hrun
        obtain ⟨hq, rfl⟩ := Prod.mk.inj hrun
        obtain rfl := Except.ok.inj hq
        exact ⟨c, rfl, rfl, hr, hclose⟩

/-- A crawl that succeeds ran its crawler from the files it opened. -/
theorem crawled_of_run_crawl (ho : fs.root.Ordered) (hrun : (h.crawl s).run fs = (.ok r, gs)) :
    ∃ c, h.Crawled s fs c r gs := by
  obtain ⟨c, hc, hopen, hr, hclose⟩ := of_run_crawl hrun
  have hstands := stands_of_openRecords ho hopen
  have ha := alike_closeRecords hstands (Crawler.alike_of_run hstands hr) (h.opened fs)
  rw [hclose] at ha
  exact ⟨c, hc, hopen, hstands, hr, ha⟩

/-- Opening the file of records leaves the room as it is. -/
theorem unlimited_opened (hu : fs.Unlimited) : (h.opened fs).Unlimited :=
  fun place => (congrFun (changesOnly_openRecords h fs).room place).trans (hu place)

/-- Where there is room, a crawl that succeeds from one state succeeds from any other. -/
theorem Crawled.exists_run_crawl (hc : h.Crawled s fs c r gs) (hu : fs.Unlimited)
    (s' : HarvestState) :
    ∃ r' gs', (h.crawl s').run fs = (.ok r', gs') ∧ h.Crawled s' fs c r' gs' := by
  have hroom : (h.opened fs).Unlimited := unlimited_opened hu
  obtain ⟨r', hr'⟩ := Crawler.exists_run_of_run hc.stands hroom ⟨r, hc.run⟩ s'.checkpoint
  obtain ⟨gs', hclose, ha⟩ := exists_closeRecords hc.stands hroom
    (Crawler.alike_of_run hc.stands hr') (h.opened fs)
  refine ⟨r', gs', ?_, hc.crawler, hc.opens, hc.stands, hr', ha⟩
  rw [run_crawl, hc.crawler]
  dsimp only
  rw [hc.opens]
  dsimp only
  rw [hr']
  dsimp only
  rw [hclose]

/-- A harvest succeeds. -/
def Succeeds (h : Harvester) (s : HarvestState) (fs : FileSystem) : Prop :=
  ∃ out gs, (h.harvest s).run fs = (.ok out, gs)

theorem succeeds_of_isOk
    (hok : ((h.harvest s).run fs).1.map (fun _ => ()) = .ok ()) : h.Succeeds s fs := by
  rcases hr : (h.harvest s).run fs with ⟨e | out, gs⟩
  · rw [hr] at hok
    cases hok
  · exact ⟨out, gs, hr⟩

/-- The steps of a harvest that succeeds. -/
theorem of_run_harvest {summary : Summary}
    (hrun : (h.harvest s).run fs = (.ok (summary, next), gs)) :
    ∃ r hs ks, (h.crawl s).run fs = (.ok r, hs) ∧
      next = ⟨r.checkpoint, h.refreshed hs s r.outcome⟩ ∧
      (h.writeReport (h.reportOf next.cache r.outcome)).run hs = (.ok (), ks) ∧
      (h.saveState next).run ks = (.ok (), gs) ∧
      summary = (h.reportOf next.cache r.outcome).summary := by
  rw [run_harvest] at hrun
  rcases hc : (h.crawl s).run fs with ⟨e | r, hs⟩
  · rw [hc] at hrun
    cases hrun
  rw [hc] at hrun
  dsimp only at hrun
  rcases hw : (h.writeReport (h.reportOf (h.refreshed hs s r.outcome) r.outcome)).run hs with
    ⟨e | ⟨⟩, ks⟩
  · rw [hw] at hrun
    cases hrun
  rw [hw] at hrun
  dsimp only at hrun
  rcases hv : (h.saveState ⟨r.checkpoint, h.refreshed hs s r.outcome⟩).run ks with ⟨e | ⟨⟩, js⟩
  · rw [hv] at hrun
    cases hrun
  rw [hv] at hrun
  obtain ⟨hout, rfl⟩ := Prod.mk.inj hrun
  obtain ⟨rfl, rfl⟩ := Prod.mk.inj (Except.ok.inj hout)
  exact ⟨r, hs, ks, rfl, rfl, hw, hv, rfl⟩

/-- The state that a harvest leaves is that of its crawl. -/
theorem crawled_of_run_harvest (ho : fs.root.Ordered) {summary : Summary}
    (hrun : (h.harvest s).run fs = (.ok (summary, next), gs)) :
    ∃ c r hs, (h.crawl s).run fs = (.ok r, hs) ∧ h.Crawled s fs c r hs ∧
      next = ⟨r.checkpoint, h.refreshed hs s r.outcome⟩ := by
  obtain ⟨r, hs, -, hc, hnext, -⟩ := of_run_harvest hrun
  obtain ⟨c, hcrawled⟩ := crawled_of_run_crawl ho hc
  exact ⟨c, r, hs, hc, hcrawled, hnext⟩

/-- What a harvest does when it has crawled, given the records known after the crawl. -/
def conclude (h : Harvester) (r : CrawlProgress RecordOutput) (cache : RecordCache) :
    Action HarvestError Unit := do
  h.writeReport (h.reportOf cache r.outcome)
  h.saveState ⟨r.checkpoint, cache⟩

/-- A cycle succeeds when its crawl does and its conclusion does. -/
theorem succeeds_iff :
    h.Succeeds s fs ↔ ∃ r hs, (h.crawl s).run fs = (.ok r, hs) ∧
      ((h.conclude r (h.refreshed hs s r.outcome)).run hs).1 = .ok () := by
  unfold Succeeds
  rw [run_harvest]
  rcases (h.crawl s).run fs with ⟨e | r, hs⟩
  · constructor
    · rintro ⟨out, gs, hrun⟩
      cases hrun
    · rintro ⟨r, gs, hrun, -⟩
      cases hrun
  have hbind := Action.run_bind (h.writeReport (h.reportOf (h.refreshed hs s r.outcome) r.outcome))
    (fun _ => h.saveState ⟨r.checkpoint, h.refreshed hs s r.outcome⟩) hs
  have hconclude : (h.conclude r (h.refreshed hs s r.outcome)).run hs = _ := hbind
  dsimp only
  constructor
  · rintro ⟨out, gs, hrun⟩
    refine ⟨r, hs, rfl, ?_⟩
    rw [hconclude]
    split at hrun
    · cases hrun
    · rename_i ks hw
      rw [hw]
      dsimp only
      split at hrun
      · cases hrun
      · rename_i js hv
        rw [hv]
  · rintro ⟨r', hs', heq, hok⟩
    obtain ⟨hr, rfl⟩ := Prod.mk.inj heq
    obtain rfl := Except.ok.inj hr
    rw [hconclude] at hok
    rcases hw : (h.writeReport (h.reportOf (h.refreshed hs s r.outcome) r.outcome)).run hs with
      ⟨e | ⟨⟩, ks⟩
    · rw [hw] at hok
      cases hok
    rw [hw] at hok
    dsimp only at hok ⊢
    rcases hv : (h.saveState ⟨r.checkpoint, h.refreshed hs s r.outcome⟩).run ks with ⟨e | ⟨⟩, js⟩
    · rw [hv] at hok
      cases hok
    · exact ⟨_, _, rfl⟩

/-- Where there is room, it does not depend on the state that it starts from whether a harvest
succeeds. -/
theorem Succeeds.of_state (ho : fs.root.Ordered) (hu : fs.Unlimited) (hs : h.Succeeds s fs)
    (s' : HarvestState) : h.Succeeds s' fs := by
  obtain ⟨r, gs, hrun, hok⟩ := succeeds_iff.mp hs
  obtain ⟨c, hc⟩ := crawled_of_run_crawl ho hrun
  obtain ⟨r', gs', hrun', hc'⟩ := hc.exists_run_crawl hu s'
  have hroom : gs.Unlimited := hc.alike.unlimited (unlimited_opened hu)
  have hmatch : Matches (h.conclude r (h.refreshed gs s r.outcome))
      (h.conclude r' (h.refreshed gs' s' r'.outcome)) :=
    .bind (matches_writeReport h _ _) fun _ => matches_saveState h _ _
  refine succeeds_iff.mpr ⟨r', gs', hrun', ?_⟩
  rw [(hmatch gs gs' ⟨hc.alike.symm.trans hc'.alike, hroom⟩).1, hok]

end Harvester

end ArchiveLabels
