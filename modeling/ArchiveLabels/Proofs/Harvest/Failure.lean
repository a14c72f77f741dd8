import ArchiveLabels.Proofs.Crawl.Accounting
import ArchiveLabels.Proofs.Harvest.Steps

/-!
# Harvests that fail

A harvest that fails leaves the state in memory as it was. If it fails before it saves the state,
then it also leaves the two files of the state alone, so that the next start finds what the last
success left. Saving is not safe : the checkpoint is saved before the records, and if these cannot be
saved then the new checkpoint stays; and a file that there is no room for holds a beginning of its new
text afterwards. `Harvester.state_left_of_error` says so of every harvest whose record and report
files are other files than those of the state, and `Harvester.checkpoint_not_left` shows a checkpoint
that stays.
-/

namespace ArchiveLabels

namespace FileSystem

/-- The file at a path is left alone : what it holds it still holds, and where the path leads to a
file afterwards there was that file before, with the same content. -/
structure LeavesFile (fs gs : FileSystem) (p : Path) : Prop where
  kept : ∀ content, fs.read p = .ok content → gs.read p = .ok content
  old : ∀ place content t, gs.locate true p = .ok (.found place (.file content t)) →
    ∃ u, fs.root.at? place = some (.file content u)

variable {fs gs : FileSystem} {ps : List Path} {p : Path} {content : ByteArray}

/-- A path is read when it leads to a file. -/
theorem read_eq_ok_iff :
    fs.read p = .ok content ↔ ∃ place t, fs.locate true p = .ok (.found place (.file content t)) := by
  constructor
  · intro h
    cases he : fs.entry? p with
    | error e => simp [read, he, bind, Except.bind] at h
    | ok e =>
      obtain ⟨place, hl⟩ := entry?_eq_ok_iff.mp he
      cases e with
      | file bytes t =>
        obtain rfl : bytes = content := by
          simpa [read, he, bind, Except.bind, pure, Except.pure] using h
        exact ⟨place, t, hl⟩
      | _ => simp [read, he, bind, Except.bind, throw, throwThe, MonadExceptOf.throw] at h
  · rintro ⟨place, t, hl⟩
    have he : fs.entry? p = .ok (.file content t) := entry?_eq_ok_iff.mpr ⟨place, hl⟩
    simp [read, he, bind, Except.bind, pure, Except.pure]

/-- The place of the file that a path leads to. -/
def fileAt? (fs : FileSystem) (p : Path) : Option (List String) :=
  match fs.locate true p with
  | .ok (.found place (.file _ _)) => some place
  | _ => none

/-- A path leads to the place of a file. -/
theorem fileAt?_eq_some_iff {place : List String} :
    fs.fileAt? p = some place ↔
      ∃ content t, fs.locate true p = .ok (.found place (.file content t)) := by
  unfold fileAt?
  split <;> simp_all

/-- A file that no written path leads to is left alone. -/
theorem ChangesOnly.leavesFile (h : ChangesOnly ps fs gs) (hp : ∀ q ∈ ps, gs.Apart q p) :
    LeavesFile fs gs p where
  kept content hc := by
    obtain ⟨place, t, hl⟩ := read_eq_ok_iff.mp hc
    obtain ⟨e, he⟩ := h.leadsTo ⟨_, hl⟩
    have hfile := (h.look_file_iff (fun q hq hlq => hp q hq place hlq ⟨e, he⟩) content t).mpr
      (Directory.look_eq_file_iff.mpr (at?_of_locate hl))
    obtain rfl := Option.some.inj ((at?_of_locate he).symm.trans
      (Directory.look_eq_file_iff.mp hfile))
    exact read_eq_ok_iff.mpr ⟨place, t, he⟩
  old place content t hl := by
    refine ⟨t, Directory.look_eq_file_iff.mp ?_⟩
    exact (h.look_file_iff (fun q hq hlq => hp q hq place hlq ⟨_, hl⟩) content t).mp
      (Directory.look_eq_file_iff.mpr (at?_of_locate hl))

/-- A file that holds certain bytes afterwards is left alone just if it held them before. -/
theorem ChangesOnly.leavesFile_iff (h : ChangesOnly ps fs gs) {place : List String} {t : Timestamp}
    (hl : gs.locate true p = .ok (.found place (.file content t))) :
    LeavesFile fs gs p ↔ ∃ u, fs.root.at? place = some (.file content u) := by
  refine ⟨fun hf => hf.old place content t hl, fun ⟨u, hu⟩ => ⟨fun bytes hb => ?_, ?_⟩⟩
  · obtain ⟨place', t', hl'⟩ := read_eq_ok_iff.mp hb
    obtain rfl := (h.leadsTo ⟨_, hl'⟩).eq ⟨_, hl⟩
    cases (at?_of_locate hl').symm.trans hu
    exact read_eq_ok_iff.mpr ⟨_, _, hl⟩
  · intro place' bytes t' hl'
    cases hl.symm.trans hl'
    exact ⟨u, hu⟩

/-- The file at a path holds the given bytes afterwards, and so is left alone just if it held them
before. -/
def Rewrites (fs gs : FileSystem) (p : Path) (bytes : ByteArray) : Prop :=
  ∃ place t, gs.locate true p = .ok (.found place (.file bytes t)) ∧
    (LeavesFile fs gs p ↔ ∃ u, fs.root.at? place = some (.file bytes u))

/-- A file that can be read afterwards holds what is read, whatever it held before. -/
theorem ChangesOnly.rewrites (h : ChangesOnly ps fs gs) (hread : gs.read p = .ok content) :
    Rewrites fs gs p content := by
  obtain ⟨place, t, hl⟩ := read_eq_ok_iff.mp hread
  exact ⟨place, t, hl, h.leavesFile_iff hl⟩

/-- Paths that lead to files at two places lead nowhere in common. -/
theorem apart_of_fileAt? {q : Path} {place place' : List String} (hp : fs.fileAt? p = some place)
    (hq : fs.fileAt? q = some place') (hne : place ≠ place') : fs.Apart p q := by
  intro other hlp hlq
  obtain ⟨content, t, hl⟩ := fileAt?_eq_some_iff.mp hp
  obtain ⟨content', t', hl'⟩ := fileAt?_eq_some_iff.mp hq
  exact hne ((LeadsTo.eq ⟨_, hl⟩ hlp).trans (LeadsTo.eq hlq ⟨_, hl'⟩))

theorem Apart.symm {q : Path} (h : fs.Apart p q) : fs.Apart q p :=
  fun place hq hp => h place hp hq

end FileSystem

namespace Harvester

open FileSystem (ChangesOnly LeavesFile Rewrites at?_of_locate)

variable {h : Harvester} {s : HarvestState} {fs gs : FileSystem} {e : HarvestError} {p : Path}

/-- How a harvest fails : before the state is saved, and then it has changed the files of records
and reports at most; in saving the checkpoint of a crawl; or in saving the records of the crawl, when
the checkpoint has been saved. -/
theorem cases_of_error (hp : h.config.crawl.checkpointPath = some p)
    (hrun : (h.harvest s).run fs = (.error e, gs)) :
    (IsBeforeSaving e ∧ ChangesOnly (h.recordFile.toList ++ h.reportFile.toList) fs gs) ∨
    (∃ ce r hs ks, e = .saveCheckpoint ce ∧ (h.crawl s).run fs = (.ok r, hs) ∧
      ChangesOnly (h.recordFile.toList ++ h.reportFile.toList) fs ks ∧
      (saveText p r.checkpoint.fileText).run ks = (.error ce, gs)) ∨
    (∃ ce r hs ks js, e = .saveRecords ce ∧ (h.crawl s).run fs = (.ok r, hs) ∧
      ChangesOnly (h.recordFile.toList ++ h.reportFile.toList) fs ks ∧
      (saveText p r.checkpoint.fileText).run ks = (.ok (), js) ∧
      (saveText (RecordCache.pathFor p) (h.refreshed hs s r.outcome).fileText).run js =
        (.error ce, gs)) := by
  have hcrawl := changesOnly_crawl h s fs
  rw [run_harvest] at hrun
  rcases hc : (h.crawl s).run fs with ⟨e' | r, hs⟩
  · rw [hc] at hrun hcrawl
    obtain ⟨he, rfl⟩ := Prod.mk.inj hrun
    obtain rfl := Except.error.inj he
    exact .inl ⟨throws_crawl h s _ _ _ hc, hcrawl.mono (List.subset_append_left _ _)⟩
  rw [hc] at hrun hcrawl
  dsimp only at hrun
  have hreport := changesOnly_writeReport h
    (h.reportOf (h.refreshed hs s r.outcome) r.outcome) hs
  rcases hw : (h.writeReport (h.reportOf (h.refreshed hs s r.outcome) r.outcome)).run hs with
    ⟨e' | ⟨⟩, ks⟩
  · rw [hw] at hrun hreport
    obtain ⟨he, rfl⟩ := Prod.mk.inj hrun
    obtain rfl := Except.error.inj he
    exact .inl ⟨throws_writeReport h _ _ _ _ hw, (hcrawl.mono (List.subset_append_left _ _)).trans
      (hreport.mono (List.subset_append_right _ _))⟩
  rw [hw] at hrun hreport
  have hbefore : ChangesOnly (h.recordFile.toList ++ h.reportFile.toList) fs ks :=
    (hcrawl.mono (List.subset_append_left _ _)).trans
      (hreport.mono (List.subset_append_right _ _))
  dsimp only at hrun
  rw [run_saveState, hp] at hrun
  dsimp only at hrun
  rw [Checkpoint.save_eq] at hrun
  rcases hk : (saveText p r.checkpoint.fileText).run ks with ⟨ce | ⟨⟩, js⟩
  · rw [hk] at hrun
    obtain ⟨he, rfl⟩ := Prod.mk.inj hrun
    exact .inr (.inl ⟨ce, r, hs, ks, (Except.error.inj he).symm, rfl, hbefore, hk⟩)
  rw [hk] at hrun
  dsimp only at hrun
  rw [RecordCache.save_eq] at hrun
  rcases hr : (saveText (RecordCache.pathFor p) (h.refreshed hs s r.outcome).fileText).run js with
    ⟨ce | ⟨⟩, ls⟩
  · rw [hr] at hrun
    obtain ⟨he, rfl⟩ := Prod.mk.inj hrun
    exact .inr (.inr ⟨ce, r, hs, ks, js, (Except.error.inj he).symm, rfl, hbefore, hk, hr⟩)
  · rw [hr] at hrun
    cases hrun

/-- Saving a text changes its file, besides what was changed before. -/
theorem changesOnly_of_saveText {ps : List Path} {ks : FileSystem} {text : String}
    {x : Except CrawlError Unit} (hch : ChangesOnly ps fs ks)
    (hsave : (saveText p text).run ks = (x, gs)) : ChangesOnly (p :: ps) fs gs := by
  have h := changesOnly_saveText p text ks
  rw [hsave] at h
  exact (hch.mono (List.subset_cons_self _ _)).trans (h.mono (by simp))

/-- A file whose text cannot be saved is left alone, or it holds a beginning of the text. -/
theorem left_of_saveText_error {ps : List Path} {ks : FileSystem} {text : String} {ce : CrawlError}
    (hch : ChangesOnly ps fs ks) (hsave : (saveText p text).run ks = (.error ce, gs))
    (hapart : ∀ q ∈ ps, gs.Apart q p) :
    LeavesFile fs gs p ∨ ∃ n < (Text.Utf8.encode text).size,
      Rewrites fs gs p ((Text.Utf8.encode text).extract 0 n) := by
  rcases of_saveText_error hsave with hnone | ⟨n, hn, place, t, hl⟩
  · exact .inl ((hch.trans (hnone.mono (List.nil_subset _))).leavesFile hapart)
  · exact .inr ⟨n, hn, (changesOnly_of_saveText hch hsave).rewrites
      (FileSystem.read_eq_ok_iff.mpr ⟨place, t, hl⟩)⟩

/-- What a harvest that fails with the error `e` leaves of the files of the state : a checkpoint, and
the cache of its records. -/
structure LeavesState (h : Harvester) (s : HarvestState) (fs gs : FileSystem) (e : HarvestError)
    (checkpoint cache : Path) : Prop where
  /-- If the harvest fails before it saves the state, both are left alone. -/
  unsaved : IsBeforeSaving e → LeavesFile fs gs checkpoint ∧ LeavesFile fs gs cache
  /-- If the checkpoint cannot be saved, it is left alone or holds a beginning of the new one. -/
  checkpoint_left : ∀ ce, e = .saveCheckpoint ce → LeavesFile fs gs checkpoint ∨
    ∃ r hs, (h.crawl s).run fs = (.ok r, hs) ∧
      ∃ n < (Text.Utf8.encode r.checkpoint.fileText).size,
        Rewrites fs gs checkpoint ((Text.Utf8.encode r.checkpoint.fileText).extract 0 n)
  /-- Then the cache is left alone. -/
  cache_left : ∀ ce, e = .saveCheckpoint ce → gs.Apart checkpoint cache → LeavesFile fs gs cache
  /-- If the records cannot be saved, the new checkpoint has been saved already, and the cache is left
  alone or holds a beginning of the new one. -/
  checkpoint_stays : ∀ ce, e = .saveRecords ce → gs.Apart checkpoint cache →
    ∃ r hs, (h.crawl s).run fs = (.ok r, hs) ∧
      Rewrites fs gs checkpoint (Text.Utf8.encode r.checkpoint.fileText) ∧
      (LeavesFile fs gs cache ∨
        ∃ n < (Text.Utf8.encode (h.refreshed hs s r.outcome).fileText).size,
          Rewrites fs gs cache ((Text.Utf8.encode (h.refreshed hs s r.outcome).fileText).extract 0 n))

/-- A harvest that fails leaves the state in memory as it was, and the files of the state as well, if
it fails before it saves them. If it fails in saving them, then the new checkpoint may stay, and what
there is no room for is cut off. -/
theorem state_left_of_error (h : Harvester) (s : HarvestState) (fs gs : FileSystem)
    (e : HarvestError) (hrun : (h.harvest s).run fs = (.error e, gs)) :
    (CommandLine.harvestAgain h s).run fs = (s, gs) ∧
    ∀ p, h.config.crawl.checkpointPath = some p →
      (∀ q ∈ h.recordFile.toList ++ h.reportFile.toList,
        gs.Apart q p ∧ gs.Apart q (RecordCache.pathFor p)) →
      h.LeavesState s fs gs e p (RecordCache.pathFor p) := by
  constructor
  · rw [run_harvestAgain, hrun]
  intro p hp hout
  -- Each way to fail is that of some of the clauses; the others are of other errors.
  rcases cases_of_error hp hrun with
    ⟨hb, hch⟩ | ⟨ce, r, hs, ks, rfl, hc, hch, hk⟩ | ⟨ce, r, hs, ks, js, rfl, hc, hch, hk, hr⟩
  · exact {
      unsaved := fun _ => ⟨hch.leavesFile fun q hq => (hout q hq).1,
        hch.leavesFile fun q hq => (hout q hq).2⟩
      checkpoint_left := fun ce he => ((hb ce).1 he).elim
      cache_left := fun ce he => ((hb ce).1 he).elim
      checkpoint_stays := fun ce he => ((hb ce).2 he).elim }
  · have hleft := left_of_saveText_error hch hk fun q hq => (hout q hq).1
    have hsaved := changesOnly_of_saveText hch hk
    exact {
      unsaved := fun hb => ((hb ce).1 rfl).elim
      checkpoint_left := fun _ _ => hleft.imp_right fun hcut => ⟨r, hs, hc, hcut⟩
      cache_left := fun _ _ hapart => hsaved.leavesFile
        (List.forall_mem_cons.mpr ⟨hapart, fun q hq => (hout q hq).2⟩)
      checkpoint_stays := nofun }
  · have hsaved := changesOnly_of_saveText hch hk
    have hall := changesOnly_of_saveText hsaved hr
    have hcache := changesOnly_saveText (RecordCache.pathFor p) (h.refreshed hs s r.outcome).fileText js
    rw [hr] at hcache
    have hread := FileSystem.read_eq_ok_iff.mpr (found_of_saveText_ok hk)
    exact {
      unsaved := fun hb => ((hb ce).2 rfl).elim
      checkpoint_left := nofun
      cache_left := nofun
      checkpoint_stays := fun _ _ hapart => by
        have hkept := hcache.leavesFile (List.forall_mem_singleton.mpr hapart.symm)
        exact ⟨r, hs, hc, hall.rewrites (hkept.kept _ hread), left_of_saveText_error hsaved hr
          (List.forall_mem_cons.mpr ⟨hapart, fun q hq => (hout q hq).2⟩)⟩ }

/-! ### Records that there is no room for -/

/-- A harvester of the catalog files below the given roots, which passes over those that have not
changed. -/
def ofCatalogs (roots : List Path) (checkpointPath : Option Path) : Harvester where
  config :=
    let c := Config.default
    { c with crawl := { c.crawl with legacyRoots := roots, persist := true, checkpointPath } }
  source := none
  policy := Crawler.catalogCrawler.policy
  manifest := none
  recordFile := none
  reportFile := none

/-- An action that fails has failed with files of its own. -/
theorem run_eq_of_map_eq_error {ε α : Type} {x : Action ε α} {fs : FileSystem} {e : ε}
    (h : (x.run fs).1.map (fun _ => ()) = .error e) : x.run fs = (.error e, (x.run fs).2) := by
  rcases hr : x.run fs with ⟨e' | a, gs⟩
  · rw [hr] at h
    rw [Except.error.inj h]
  · rw [hr] at h
    cases h

/-- The state that an earlier harvest has left. -/
def earlierState : HarvestState :=
  ⟨Checkpoint.empty.put ⟨"/"⟩ ⟨"c/b.cat"⟩ ⟨1, 0⟩,
    ⟨[⟨"c/b.cat", none, some "B", "Catalog", [], [], []⟩]⟩⟩

/-- A catalog file, the files of the state, and a file of records with room for ten bytes. -/
def crowdedFiles : FileSystem where
  root :=
    .entry "c" (.directory (.entry "a.cat"
        (.file (Text.Utf8.encode Crawler.missionLabel) ⟨1, 0⟩) .empty))
      (.entry "r.jsonl" (.file .empty ⟨1, 0⟩)
        (.entry "s" (.directory
          (.entry "k.json" (.file (Text.Utf8.encode earlierState.checkpoint.fileText) ⟨1, 0⟩)
            (.entry "k.records.jsonl" (.file (Text.Utf8.encode earlierState.cache.fileText) ⟨1, 0⟩)
              .empty))) .empty))
  here := []
  clock := .epoch
  printed := ""
  room place := if place = ["r.jsonl"] then some 10 else none

/-- A harvester that adds the records of catalog files to a file. -/
def ofRecords : Harvester :=
  { ofCatalogs [⟨"c"⟩] (some ⟨"s/k.json"⟩) with recordFile := some ⟨"r.jsonl"⟩ }

set_option maxRecDepth 100000 in
/-- A harvest that finds no room for its records leaves the files of the state alone. -/
theorem state_left_of_full_device :
    ∃ gs, (ofRecords.harvest earlierState).run crowdedFiles = (.error (.flushRecords .noSpace), gs) ∧
      (gs.read ⟨"r.jsonl"⟩).toOption.map ByteArray.size = some 10 ∧
      gs.read ⟨"s/k.json"⟩ = .ok (Text.Utf8.encode earlierState.checkpoint.fileText) ∧
      gs.read ⟨"s/k.records.jsonl"⟩ = .ok (Text.Utf8.encode earlierState.cache.fileText) := by
  have hfail : ((ofRecords.harvest earlierState).run crowdedFiles).1.map (fun _ => ()) =
      .error (.flushRecords .noSpace) := by
    decide +kernel
  obtain ⟨hrecords, hk, hc⟩ :
      ((ofRecords.harvest earlierState).run crowdedFiles).2.fileAt? ⟨"r.jsonl"⟩ = some ["r.jsonl"] ∧
      ((ofRecords.harvest earlierState).run crowdedFiles).2.fileAt? ⟨"s/k.json"⟩ =
        some ["k.json", "s"] ∧
      ((ofRecords.harvest earlierState).run crowdedFiles).2.fileAt? ⟨"s/k.records.jsonl"⟩ =
        some ["k.records.jsonl", "s"] := by
    decide +kernel
  have hrun := run_eq_of_map_eq_error hfail
  obtain ⟨-, hfiles⟩ := state_left_of_error _ earlierState crowdedFiles _ _ hrun
  have hleaves := hfiles ⟨"s/k.json"⟩ rfl fun q hq => by
    obtain rfl : q = ⟨"r.jsonl"⟩ := List.mem_singleton.mp hq
    exact ⟨FileSystem.apart_of_fileAt? hrecords hk (by decide),
      FileSystem.apart_of_fileAt? hrecords hc (by decide)⟩
  obtain ⟨hcheckpoint, hcache⟩ := hleaves.unsaved fun _ => ⟨nofun, nofun⟩
  exact ⟨_, hrun, by decide +kernel, hcheckpoint.kept _ rfl, hcache.kept _ rfl⟩

/-! ### A checkpoint without its records -/

/-- A catalog file, and a directory where the records of a checkpoint would be saved. -/
def blockedFiles : FileSystem where
  root := .entry "c" (.directory (.entry "a.cat"
      (.file (Text.Utf8.encode Crawler.missionLabel) ⟨1, 0⟩) .empty))
    (.entry "s" (.directory (.entry "k.records.jsonl" (.directory .empty) .empty)) .empty)
  here := []
  clock := .epoch
  printed := ""

set_option maxRecDepth 100000 in
/-- A harvest that fails may leave a new checkpoint : the records of this one cannot be saved. -/
theorem checkpoint_not_left :
    ¬∀ (h : Harvester) (s : HarvestState) (fs gs : FileSystem) (e : HarvestError) (p : Path),
      (h.harvest s).run fs = (.error e, gs) → h.config.crawl.checkpointPath = some p →
      (∀ q ∈ h.recordFile.toList ++ h.reportFile.toList,
        gs.Apart q p ∧ gs.Apart q (RecordCache.pathFor p)) →
      LeavesFile fs gs p ∧ LeavesFile fs gs (RecordCache.pathFor p) := by
  intro hleft
  have hfail : (((ofCatalogs [⟨"c"⟩] (some ⟨"s/k.json"⟩)).harvest .empty).run blockedFiles).1.map
      (fun _ => ()) = .error (.saveRecords (.file ⟨"s/k.records.jsonl"⟩ .isADirectory)) := by
    decide +kernel
  have hold : (blockedFiles.root.look ["k.json", "s"]).isNone = true := by
    decide +kernel
  have hnew : (((ofCatalogs [⟨"c"⟩] (some ⟨"s/k.json"⟩)).harvest .empty).run
      blockedFiles).2.fileAt? ⟨"s/k.json"⟩ = some ["k.json", "s"] := by
    decide +kernel
  obtain ⟨hk, -⟩ := hleft _ .empty blockedFiles _ _ ⟨"s/k.json"⟩ (run_eq_of_map_eq_error hfail) rfl
    (fun q hq => by cases hq)
  obtain ⟨content, t, hl⟩ := FileSystem.fileAt?_eq_some_iff.mp hnew
  obtain ⟨u, hu⟩ := hk.old _ _ _ hl
  rw [Option.isNone_iff_eq_none, Directory.look_eq_none_iff] at hold
  cases hold.symm.trans hu

end Harvester

end ArchiveLabels
