import ArchiveLabels.Proofs.Harvest.Failure
import ArchiveLabels.Proofs.Harvest.Success
import ArchiveLabels.Proofs.Record.Lines

/-!
# Records that are appended

Bytes that are handed on are in the file of records or wait to be written there, all of them and in
their order (`RecordOutput.Holds`), however much of them waits at a time. So a batch of records adds
its lines to those that the file holds when it is opened (`Harvester.read_of_appendBatch`), and
batches add up (`Harvester.read_of_appendBatches`). What a crawl makes is such a batch
(`Harvester.run_appendBatch_of_crawl`).
-/

namespace ArchiveLabels

theorem Text.Utf8.encode_append (s t : String) : encode (s ++ t) = encode s ++ encode t := by
  simp [encode]

/-- A file that is written behind what is there. -/
theorem FileSystem.read_of_append {fs gs : FileSystem} {p : Path} {content bytes : ByteArray}
    (hread : fs.read p = .ok content) (h : (append p bytes).run fs = (.ok (), gs)) :
    gs.read p = .ok (content ++ bytes) := by
  obtain ⟨place, t, hl⟩ := read_eq_ok_iff.mp hread
  obtain ⟨-, he⟩ := of_writeWith_found hl (of_append_ok h)
  exact read_eq_ok_iff.mpr ⟨place, _, he⟩

/-! ## Bytes -/

namespace RecordOutput

variable {p : Path} {o q : RecordOutput} {total bytes : ByteArray}

/-- The bytes are in the file or wait to be written to it. -/
def Holds (p : Path) (o : RecordOutput) (total : ByteArray) : Prop :=
  ∃ content, o.files.read p = .ok content ∧ total = content ++ o.waiting

/-- An output just opened holds what the file holds. -/
theorem holds_start {fs : FileSystem} (h : fs.read p = .ok total) : Holds p (start fs) total :=
  ⟨total, h, ByteArray.append_empty.symm⟩

/-- Bytes appended stand behind those in the file. -/
theorem read_of_append {content : ByteArray} (hread : o.files.read p = .ok content)
    (h : o.append p bytes = .ok q) :
    q.files.read p = .ok (content ++ bytes) ∧ q.waiting = o.waiting := by
  unfold append at h
  split at h
  · rename_i files hf
    obtain rfl := Except.ok.inj h
    exact ⟨FileSystem.read_of_append hread hf, rfl⟩
  · cases h

theorem eq_empty_of_size {b : ByteArray} (h : b.size = 0) : b = .empty :=
  ByteArray.ext (Array.eq_empty_of_size_eq_zero h)

/-- When nothing waits any more, all is in the file. -/
theorem Holds.flush (ho : Holds p o total) (h : o.flush p = .ok q) :
    q.files.read p = .ok total ∧ q.waiting = .empty := by
  obtain ⟨content, hread, rfl⟩ := ho
  have hwaiting := eq_empty_of_size (size_waiting_of_flush h)
  refine ⟨?_, hwaiting⟩
  unfold RecordOutput.flush at h
  split at h
  · obtain rfl := Except.ok.inj h
    rw [hread, hwaiting, ByteArray.append_empty]
  · cases ha : o.append p o.waiting with
    | error e => simp [ha, Except.map] at h
    | ok r =>
      simp only [ha, Except.map, Except.ok.injEq] at h
      rw [← h]
      exact (read_of_append hread ha).1

/-- Where bytes take all the room, nothing waits any more when there is to be room for them. -/
theorem Holds.makeRoom {n : Nat} (ho : Holds p o total) (h : o.makeRoom p n = .ok q) :
    Holds p q total ∧ (room ≤ n → q.waiting = .empty) := by
  unfold RecordOutput.makeRoom at h
  split at h
  · obtain ⟨hread, hwaiting⟩ := ho.flush h
    exact ⟨⟨total, hread, by rw [hwaiting, ByteArray.append_empty]⟩, fun _ => hwaiting⟩
  · obtain rfl := Except.ok.inj h
    exact ⟨ho, fun hn => eq_empty_of_size (by omega)⟩

/-- Bytes are added behind the others. -/
theorem Holds.put (ho : Holds p o total) (h : o.put p bytes = .ok q) :
    Holds p q (total ++ bytes) := by
  unfold RecordOutput.put at h
  cases hr : o.makeRoom p bytes.size with
  | error e => simp [hr, bind, Except.bind] at h
  | ok r =>
    obtain ⟨⟨content, hread, rfl⟩, hroom⟩ := ho.makeRoom hr
    simp only [hr, bind, Except.bind] at h
    split at h
    · -- Bytes that take all the room are written at once, but then nothing waits.
      rename_i hs
      obtain ⟨hread', hwaiting⟩ := read_of_append hread h
      refine ⟨_, hread', ?_⟩
      rw [hwaiting, hroom hs, ByteArray.append_empty, ByteArray.append_empty]
    · obtain rfl := Except.ok.inj h
      exact ⟨content, hread, ByteArray.append_assoc⟩

/-- Texts put one by one are held one behind the other, in the file or waiting. -/
theorem Holds.foldlM_put {texts : List (List Char)} (ho : Holds p o total)
    (h : (texts.map fun cs => Text.Utf8.encode (String.ofList cs)).foldlM (RecordOutput.put p) o =
      .ok q) :
    Holds p q (total ++ Text.Utf8.encode (String.ofList texts.flatten)) := by
  induction texts generalizing o total with
  | nil =>
    obtain rfl := Except.ok.inj h
    simpa [Text.Utf8.encode] using ho
  | cons cs texts ih =>
    rw [List.map_cons, List.foldlM_cons] at h
    cases hp : o.put p (Text.Utf8.encode (String.ofList cs)) with
    | error e => simp [hp, bind, Except.bind] at h
    | ok r =>
      have hq := ih (ho.put hp) (by simpa [hp, bind, Except.bind] using h)
      rwa [ByteArray.append_assoc, ← Text.Utf8.encode_append, ← String.ofList_append,
        ← List.flatten_cons] at hq

/-- A record adds its line. -/
theorem Holds.add {r : Record} (ho : Holds p o total) (h : o.add p r = .ok q) :
    Holds p q (total ++ Text.Utf8.encode (Record.linesText [r])) := by
  have hline : String.ofList (r.toJson.pieces ++ [['\n']]).flatten = Record.linesText [r] := by
    rw [List.flatten_append, Json.flatten_pieces, String.ofList_append]
    simp [Record.linesText, Json.compact]
  rw [← hline]
  exact ho.foldlM_put h

/-- Records add their lines in their order. -/
theorem Holds.acceptAll {rs : List Record} (ho : Holds p o total)
    (h : (sink (some p)).acceptAll rs o = .ok q) :
    Holds p q (total ++ Text.Utf8.encode (Record.linesText rs)) := by
  induction rs generalizing o total with
  | nil =>
    obtain rfl := Except.ok.inj h
    simpa [Record.linesText, Text.Utf8.encode] using ho
  | cons r rs ih =>
    rw [Sink.acceptAll, List.foldlM_cons] at h
    cases ha : o.add p r with
    | error e => simp [sink, ha, bind, Except.bind] at h
    | ok o' =>
      have hq := ih (ho.add ha) (by simpa [sink, ha, bind, Except.bind, Sink.acceptAll] using h)
      rwa [ByteArray.append_assoc, ← Text.Utf8.encode_append, ← Record.linesText_append] at hq

end RecordOutput

/-! ## Batches -/

namespace Harvester

variable {h : Harvester} {fs gs : FileSystem} {p : Path} {rs : List Record}

/-- Appends a batch of records : opens the file of records, hands the records on and writes what
waits. If a record cannot be handed on, what waits is written all the same, as far as that goes. -/
def appendBatch (h : Harvester) (rs : List Record) : Action HarvestError Unit := do
  h.openRecords
  match (RecordOutput.sink h.recordFile).acceptAll rs (.start (← get)) with
  | .error (e, o) =>
    tryCatch (h.closeRecords o) fun _ => pure ()
    throw (.crawl (.output e))
  | .ok o => h.closeRecords o

/-- Appends batches of records one after the other. -/
def appendBatches (h : Harvester) (batches : List (List Record)) : Action HarvestError Unit :=
  batches.forM h.appendBatch

/-- A batch is opened, put and flushed. -/
theorem run_appendBatch (h : Harvester) (rs : List Record) (fs : FileSystem) :
    (h.appendBatch rs).run fs =
      match h.openRecords.run fs with
      | (.error e, gs) => (.error e, gs)
      | (.ok (), gs) =>
        match (RecordOutput.sink h.recordFile).acceptAll rs (.start gs) with
        | .error (e, o) => (.error (.crawl (.output e)), ((h.closeRecords o).run gs).2)
        | .ok o => (h.closeRecords o).run gs := by
  refine (Action.run_bind h.openRecords _ fs).trans ?_
  rcases h.openRecords.run fs with ⟨e | ⟨⟩, gs⟩
  · rfl
  refine (Action.run_get_bind _ gs).trans ?_
  dsimp only
  rcases (RecordOutput.sink h.recordFile).acceptAll rs (.start gs) with ⟨e, o⟩ | o
  · refine (Action.run_bind (tryCatch (h.closeRecords o) fun _ => pure ()) _ gs).trans ?_
    rw [Action.run_tryCatch]
    dsimp only
    rcases (h.closeRecords o).run gs with ⟨e | ⟨⟩, hs⟩ <;> rfl
  · rfl

/-- A batch is appended in three steps. -/
theorem run_appendBatch_iff :
    (h.appendBatch rs).run fs = (.ok (), gs) ↔
      ∃ o, h.openRecords.run fs = (.ok (), h.opened fs) ∧
        (RecordOutput.sink h.recordFile).acceptAll rs (.start (h.opened fs)) = .ok o ∧
        (h.closeRecords o).run (h.opened fs) = (.ok (), gs) := by
  have hfiles : h.opened fs = (h.openRecords.run fs).2 := rfl
  rw [run_appendBatch]
  rcases hopen : h.openRecords.run fs with ⟨e | ⟨⟩, hs⟩
  · refine ⟨fun hrun => ?_, fun ⟨_, hok, _⟩ => ?_⟩
    · cases hrun
    · cases hok
  · rw [hopen] at hfiles
    obtain rfl : h.opened fs = hs := hfiles
    dsimp only
    cases hall : (RecordOutput.sink h.recordFile).acceptAll rs (.start (h.opened fs)) with
    | error e =>
      refine ⟨fun hrun => ?_, fun ⟨_, _, hok, _⟩ => ?_⟩
      · cases hrun
      · cases hok
    | ok o =>
      refine ⟨fun hrun => ⟨o, rfl, rfl, hrun⟩, fun ⟨_, _, hok, hclose⟩ => ?_⟩
      obtain rfl := Except.ok.inj hok
      exact hclose

/-- What a crawl makes is a batch of records. -/
theorem run_appendBatch_of_crawl {s : HarvestState} {r : CrawlProgress RecordOutput}
    (hrun : (h.crawl s).run fs = (.ok r, gs)) :
    (h.appendBatch r.outcome.records).run fs = (.ok (), gs) := by
  obtain ⟨c, -, hopen, hr, hclose⟩ := of_run_crawl hrun
  refine run_appendBatch_iff.mpr ⟨r.sink, hopen, ?_, hclose⟩
  rw [Crawler.outcome_of_run hr]
  exact (Crawler.gives_of_run hr).accepted

/-- A batch adds its lines to those that the file of records holds when it is opened. -/
theorem read_of_appendBatch (hp : h.recordFile = some p)
    (hrun : (h.appendBatch rs).run fs = (.ok (), gs)) {content : ByteArray}
    (hread : (h.opened fs).read p = .ok content) :
    gs.read p = .ok (content ++ Text.Utf8.encode (Record.linesText rs)) := by
  obtain ⟨o, -, hall, hclose⟩ := run_appendBatch_iff.mp hrun
  rw [hp] at hall
  have ho := (RecordOutput.holds_start hread).acceptAll hall
  rw [run_closeRecords, hp] at hclose
  dsimp only at hclose
  cases hf : o.flush p with
  | error e =>
    rw [hf] at hclose
    cases hclose
  | ok q =>
    rw [hf] at hclose
    rw [← (Prod.mk.inj hclose).2]
    exact (ho.flush hf).1

/-- A file of records that is there is opened as it is. -/
theorem read_opened (hp : h.recordFile = some p) (hopen : h.openRecords.run fs = (.ok (), gs))
    {content : ByteArray} (hread : fs.read p = .ok content) : gs.read p = .ok content := by
  unfold openRecords at hopen
  rw [hp] at hopen
  replace hopen := (Action.run_bind _ _ fs).symm.trans hopen
  have hparent : FileSystem.ChangesOnly [] fs _ := FileSystem.changesOnly_makeParent p fs
  rw [Action.run_adapt] at hopen
  rcases hm : (FileSystem.makeParent p).run fs with ⟨⟨d, e⟩ | ⟨⟩, hs⟩
  · rw [hm] at hopen
    cases hopen
  rw [hm] at hopen hparent
  have hkept : hs.read p = .ok content :=
    (hparent.leavesFile fun q hq => nomatch hq).kept content hread
  obtain ⟨place, t, hl⟩ := FileSystem.read_eq_ok_iff.mp hkept
  dsimp only [Except.mapError] at hopen
  rw [Action.run_adapt, FileSystem.openFile, Action.run_get_bind, hl] at hopen
  obtain rfl := (Prod.mk.inj hopen).2
  exact hkept

/-- The first batch is appended before the others. -/
theorem run_appendBatches_cons {batches : List (List Record)}
    (hrun : (h.appendBatches (rs :: batches)).run fs = (.ok (), gs)) :
    ∃ hs, (h.appendBatch rs).run fs = (.ok (), hs) ∧
      (h.appendBatches batches).run hs = (.ok (), gs) := by
  replace hrun := (Action.run_bind _ _ fs).symm.trans hrun
  rcases hb : (h.appendBatch rs).run fs with ⟨e | ⟨⟩, hs⟩
  · rw [hb] at hrun
    cases hrun
  · rw [hb] at hrun
    exact ⟨hs, rfl, hrun⟩

/-- Batches add their lines to those that the file of records holds when it is first opened. -/
theorem read_of_appendBatches (hp : h.recordFile = some p) {batches : List (List Record)}
    (hne : batches ≠ []) (hrun : (h.appendBatches batches).run fs = (.ok (), gs))
    {content : ByteArray} (hread : (h.opened fs).read p = .ok content) :
    gs.read p = .ok (content ++ Text.Utf8.encode (Record.linesText batches.flatten)) := by
  induction batches generalizing fs content with
  | nil => exact absurd rfl hne
  | cons rs batches ih =>
    obtain ⟨hs, hfirst, hrest⟩ := run_appendBatches_cons hrun
    have hread' := read_of_appendBatch hp hfirst hread
    cases batches with
    | nil =>
      obtain rfl := (Prod.mk.inj hrest).2
      simpa using hread'
    | cons qs batches =>
      obtain ⟨ks, hnext, -⟩ := run_appendBatches_cons hrest
      obtain ⟨o, hopen, -⟩ := run_appendBatch_iff.mp hnext
      have hall := ih (List.cons_ne_nil qs batches) hrest (read_opened hp hopen hread')
      rwa [ByteArray.append_assoc, ← Text.Utf8.encode_append, ← Record.linesText_append,
        ← List.flatten_cons] at hall

end Harvester

/-! ## Files of records -/

theorem eq_ok_of_toOption {ε α : Type} {x : Except ε α} {a : α} (h : x.toOption = some a) :
    x = .ok a := by
  cases x with
  | error e => cases h
  | ok b => rw [Option.some.inj h]

/-- Records survive in files. What a cache saves is loaded again, and batches that are appended to a
file of records are read from it as one list, behind the records that it held when it was first
opened. Either file has a line for each record. -/
theorem Record.kept_in_files :
    (∀ (c : RecordCache) (p : Path) (fs gs : FileSystem), (∀ r ∈ c.records, r.LinesFit) →
      (c.save p).run fs = (.ok (), gs) → gs.KeepsRecords p c.records) ∧
    ∀ (h : Harvester) (p : Path) (old : List Record) (batches : List (List Record))
      (fs gs : FileSystem), h.recordFile = some p → batches ≠ [] →
      (∀ r ∈ old ++ batches.flatten, r.LinesFit) →
      (h.opened fs).read p = .ok (Text.Utf8.encode (linesText old)) →
      (h.appendBatches batches).run fs = (.ok (), gs) →
      gs.KeepsRecords p (old ++ batches.flatten) := by
  constructor
  · intro c p fs gs hfit hsave
    exact FileSystem.keepsRecords_of_save hfit hsave
  · intro h p old batches fs gs hp hne hfit hold hrun
    have hread := Harvester.read_of_appendBatches hp hne hrun hold
    rw [← Text.Utf8.encode_append, ← linesText_append] at hread
    exact FileSystem.keepsRecords_of_read hfit hread

namespace Record

/-- A record of odd texts, with all that may be there. -/
def odd : Record where
  source := "a\"b\\c\nd.xml"
  identifier := some ⟨"urn:x", some "1.0"⟩
  title := some ""
  objectType := "\t"
  dataClasses := ["é", "\r\n"]
  references := [⟨⟨"urn:y", none⟩, "is", "a", some 7⟩]
  slots := [⟨"s", ["1", "2"], some "m", [3, 4]⟩]

/-- A record of nothing but a source, with a slot of no lines. -/
def bare : Record := ⟨"b", none, none, "", [], [], [⟨"t", ["1"], none, []⟩]⟩

theorem linesFit_odd : odd.LinesFit := by
  constructor <;> simp [odd, Reference.LineFits, Slot.LinesFit, lineBound, UInt32.size]

theorem linesFit_bare : bare.LinesFit := by
  constructor <;> simp [bare, Slot.LinesFit]

/-- A harvester that adds records to a file. -/
def recorder : Harvester :=
  { Harvester.ofCatalogs [] none with recordFile := some ⟨"/r/a.jsonl"⟩ }

set_option maxRecDepth 100000 in
/-- Both ways of keeping records, with files that are not there before. -/
theorem kept_in_files_odd :
    (∃ gs, ((RecordCache.mk [odd, bare]).save ⟨"/s/k.records.jsonl"⟩).run default = (.ok (), gs) ∧
      gs.KeepsRecords ⟨"/s/k.records.jsonl"⟩ [odd, bare]) ∧
    ∃ gs, (recorder.appendBatches [[bare, odd], [], [bare]]).run default = (.ok (), gs) ∧
      gs.KeepsRecords ⟨"/r/a.jsonl"⟩ [bare, odd, bare] := by
  constructor
  · obtain ⟨⟨⟩, gs, hsave⟩ := Action.exists_run_of_toBool (show (((RecordCache.mk [odd, bare]).save
      ⟨"/s/k.records.jsonl"⟩).run default).1.toBool = true by decide +kernel)
    have hfit : ∀ r ∈ [odd, bare], r.LinesFit := by simp [linesFit_odd, linesFit_bare]
    exact ⟨gs, hsave, kept_in_files.1 _ _ _ _ hfit hsave⟩
  · obtain ⟨⟨⟩, gs, hrun⟩ := Action.exists_run_of_toBool (show ((recorder.appendBatches
      [[bare, odd], [], [bare]]).run default).1.toBool = true by decide +kernel)
    have hold : ((recorder.opened default).read ⟨"/r/a.jsonl"⟩).toOption =
        some (Text.Utf8.encode (linesText [])) := by
      decide +kernel
    have hfit : ∀ r ∈ [] ++ [[bare, odd], [], [bare]].flatten, r.LinesFit := by
      simp [linesFit_odd, linesFit_bare]
    exact ⟨gs, hrun, kept_in_files.2 recorder ⟨"/r/a.jsonl"⟩ [] _ _ _ rfl (by simp) hfit
      (eq_ok_of_toOption hold) hrun⟩

end Record

end ArchiveLabels
