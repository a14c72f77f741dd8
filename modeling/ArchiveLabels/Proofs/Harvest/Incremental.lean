import ArchiveLabels.Proofs.Harvest.Cycle
import ArchiveLabels.Proofs.Harvest.Failure

/-!
# Harvests one after another

A history is a list of file systems, the last one first, each harvested from the state that the
harvests before it left. If a file whose content is another one than when it was last visited has
another time as well, then one would like to find the same records in the cache as after a single
harvest of the last file system. `Harvester.agrees_iff_settled` says when this is so : a file with
the time at which it was last visited has to be one that the harvest before found as well, and a file
that this one made a record of has to be found again as long as it is there. `Harvester.record_lost`
shows what happens otherwise : a file that is away during a harvest, and is back with its old time
when the next one comes, has no record from then on.
-/

namespace ArchiveLabels.Harvester

variable {h : Harvester} {past fss : List FileSystem} {fs prev : FileSystem} {p q : Path}

/-! ## Histories -/

/-- The state that is left when file systems have been harvested, the last one first. -/
def after (h : Harvester) : List FileSystem → HarvestState
  | [] => .empty
  | fs :: past => ((CommandLine.harvestAgain h (h.after past)).run fs).1

/-- What was read in a file, and its time, when it was last visited. -/
def lastVisit (h : Harvester) :
    List FileSystem → Path → Option (Except FileError ByteArray × Except FileError Timestamp)
  | [], _ => none
  | fs :: past, p =>
    match (h.opened fs).visitOf (h.visited (h.after past) fs) p with
    | some q => some ((h.opened fs).read q, (h.opened fs).modified q)
    | none => h.lastVisit past p

/-- A file system that is harvested when those of `past` have been : the harvest succeeds, the
current directory is the one of before, and a candidate whose content is not the one of its last
visit has another time as well. Where there is room, a single harvest of the file system succeeds
then, too (`Cycle.succeeds_empty`); elsewhere it has to be asked for. -/
structure Cycle (h : Harvester) (past : List FileSystem) (fs : FileSystem) : Prop where
  succeeds : h.Succeeds (h.after past) fs
  fresh : ¬fs.Unlimited → h.Succeeds .empty fs
  ordered : fs.root.Ordered
  proper : fs.HasProperHere
  here : ∀ gs ∈ past, gs.here = fs.here
  undisturbed : h.Undisturbed (h.after past) fs ∧ h.Undisturbed .empty fs
  honest : ∀ p ∈ h.candidates fs, ∀ v ∈ h.lastVisit past p,
    (h.opened fs).read p ≠ v.1 → (h.opened fs).modified p ≠ v.2

/-- File systems that are harvested in turn, the last one first. -/
inductive History (h : Harvester) : List FileSystem → Prop where
  /-- None so far. -/
  | nil : History h []
  /-- One more. -/
  | cons {past : List FileSystem} {fs : FileSystem} (before : History h past)
      (cycle : Cycle h past fs) : History h (fs :: past)

/-- The cache holds the records that a single harvest leaves. -/
def Agrees (h : Harvester) (past : List FileSystem) (fs : FileSystem) : Prop :=
  ∀ r, r ∈ (h.after (fs :: past)).cache.records ↔ r ∈ (h.after [fs]).cache.records

/-- Nothing is back with an old time, and nothing is passed over that is still there. -/
structure Settled (h : Harvester) (past : List FileSystem) (fs : FileSystem) : Prop where
  resumed : ∀ p ∈ h.leaders fs, (h.recordOf fs p).isSome →
    (h.lastVisit past p).map Prod.snd = some ((h.opened fs).modified p) →
    ∃ prev ∈ past.head?, p ∈ h.leaders prev
  dropped : ∀ prev ∈ past.head?, ∀ p ∈ h.leaders prev, (h.recordOf prev p).isSome →
    (h.opened fs).has p → p ∈ h.leaders fs

/-- The first harvest is a single one. -/
theorem agrees_nil (h : Harvester) (fs : FileSystem) : h.Agrees [] fs := fun _ => Iff.rfl

theorem settled_nil (h : Harvester) (fs : FileSystem) : h.Settled [] fs where
  resumed p _ _ hv := by cases hv
  dropped prev hprev := by cases hprev

/-! ## One more harvest -/

/-- However many cycles there were, no source has two records. -/
theorem hasOneEach_after (h : Harvester) (past : List FileSystem) :
    (h.after past).cache.HasOneEach := by
  induction past with
  | nil => exact RecordCache.hasOneEach_empty
  | cons fs past ih => exact hasOneEach_harvestAgain ih fs

theorem Cycle.succeeds_empty (hc : Cycle h past fs) : h.Succeeds .empty fs := by
  by_cases hu : fs.Unlimited
  · exact hc.succeeds.of_state hc.ordered hu .empty
  · exact hc.fresh hu

section

variable (hi : h.IsIncremental)

include hi

/-- One cycle of the history, harvested from where the one before ended. -/
theorem Cycle.harvested (hc : Cycle h past fs) :
    h.Harvested (h.after past) fs (h.after (fs :: past)) :=
  harvested_of_succeeds hi (hasOneEach_after h past) hc.ordered hc.proper hc.undisturbed.1
    hc.succeeds

/-- A single harvest makes a record of each leader that one can be made of. -/
theorem Cycle.mem_after_singleton_iff (hc : Cycle h past fs) (r : Record) :
    r ∈ (h.after [fs]).cache.records ↔ ∃ p ∈ h.leaders fs, h.recordOf fs p = some r := by
  have hfresh : h.Harvested .empty fs (h.after [fs]) :=
    harvested_of_succeeds hi RecordCache.hasOneEach_empty hc.ordered hc.proper hc.undisturbed.2
      hc.succeeds_empty
  rw [hfresh.mem_records_iff]
  constructor
  · rintro (⟨p, hp, -, hr⟩ | ⟨hr, -⟩)
    · exact ⟨p, hp, hr⟩
    · cases hr
  · rintro ⟨p, hp, hr⟩
    have hchanged := Checkpoint.isChanged_empty (FileSystem.mem_of_mem_leaders hp).2
    exact .inl ⟨p, hp, hchanged, hr⟩

/-- The checkpoint knows the times of the last visits. -/
theorem History.get?_checkpoint (hist : History h past) (hh : ∀ gs ∈ past, gs.here = fs.here)
    (q : Path) : (h.after past).checkpoint.get? fs.workingDirectory q =
      (h.lastVisit past q).bind fun v => v.2.toOption := by
  induction hist with
  | nil => rfl
  | @cons past prev before cycle ih =>
    have hcwd : (h.opened prev).workingDirectory = fs.workingDirectory :=
      FileSystem.workingDirectory_congr
        ((here_opened h prev).trans (hh prev List.mem_cons_self))
    have hknown := (cycle.harvested hi).get?_checkpoint q
    rw [hcwd] at hknown
    rw [hknown, lastVisit]
    cases (h.opened prev).visitOf (h.visited (h.after past) prev) q with
    | some p => rfl
    | none => exact ih fun gs hgs => hh gs (List.mem_cons_of_mem prev hgs)

/-- A leader is unchanged for the checkpoint just if it has the time of its last visit. -/
theorem Cycle.isChanged_eq_false_iff (hc : Cycle h past fs) (hist : History h past)
    (hp : p ∈ h.leaders fs) :
    (h.after past).checkpoint.isChanged (h.opened fs) p = false ↔
      (h.lastVisit past p).map Prod.snd = some ((h.opened fs).modified p) := by
  obtain ⟨t, ht⟩ := FileSystem.has_iff_modified.mp (FileSystem.mem_of_mem_leaders hp).2
  have hhere : ∀ gs ∈ past, gs.here = (h.opened fs).here := fun gs hgs =>
    (hc.here gs hgs).trans (here_opened h fs).symm
  rw [Checkpoint.isChanged_eq_false_iff ht, hist.get?_checkpoint hi hhere, ht]
  cases h.lastVisit past p with
  | none => simp
  | some v => cases hv : v.2 <;> simp [hv, Except.toOption]

/-- Then it also has the content of its last visit. -/
theorem Cycle.lastVisit_of_unchanged (hc : Cycle h past fs) (hist : History h past)
    (hp : p ∈ h.leaders fs)
    (hk : (h.after past).checkpoint.isChanged (h.opened fs) p = false) :
    h.lastVisit past p = some ((h.opened fs).read p, (h.opened fs).modified p) := by
  rw [hc.isChanged_eq_false_iff hi hist hp] at hk
  obtain ⟨⟨content, time⟩, hv, rfl⟩ := Option.map_eq_some_iff.mp hk
  have hcontent : (h.opened fs).read p = content := by
    by_contra hne
    exact hc.honest p (FileSystem.mem_of_mem_leaders hp).1 _ hv hne rfl
  rw [hv, hcontent]

/-- Behind a harvest its leaders have been last visited as they are in it. -/
theorem Cycle.lastVisit_of_leader (hc : Cycle h past prev) (hist : History h past)
    (hp : p ∈ h.leaders prev) :
    h.lastVisit (prev :: past) p = some ((h.opened prev).read p, (h.opened prev).modified p) := by
  have hhas := (FileSystem.mem_of_mem_leaders hp).2
  have hproper : (h.opened prev).HasProperHere := by
    rw [FileSystem.HasProperHere, here_opened]
    exact hc.proper
  rw [lastVisit]
  cases hv : (h.opened prev).visitOf (h.visited (h.after past) prev) p with
  | some q =>
    obtain ⟨-, hq, hkey⟩ := FileSystem.of_visitOf hv
    dsimp only
    rw [FileSystem.read_eq_of_key_eq hproper hq hhas hkey,
      FileSystem.modified_eq_of_key_eq hproper hq hhas hkey]
  | none =>
    refine hc.lastVisit_of_unchanged hi hist hp ?_
    by_contra hk
    have hvisited : p.text ∈ h.visited (h.after past) prev :=
      ((hc.harvested hi).mem_visited_iff p).mpr (.inr ⟨hp, by simpa using hk⟩)
    have hnone := List.find?_eq_none.mp hv p (List.mem_map.mpr ⟨p.text, hvisited, rfl⟩)
    simp [hhas] at hnone

/-- A file that was a leader already, and is unchanged for the checkpoint, makes the record that it
made. -/
theorem Cycle.recordOf_eq (hc : Cycle h (prev :: past) fs) (hist : History h (prev :: past))
    (hp : p ∈ h.leaders fs) (hp' : p ∈ h.leaders prev)
    (hk : (h.after (prev :: past)).checkpoint.isChanged (h.opened fs) p = false) :
    h.recordOf fs p = h.recordOf prev p := by
  have hnow := hc.lastVisit_of_unchanged hi hist hp hk
  obtain - | ⟨before, cycle⟩ := hist
  rw [cycle.lastVisit_of_leader hi before hp'] at hnow
  have hread := congrArg Prod.fst (Option.some.inj hnow)
  refine hi.recordOf_congr ?_ hread.symm
  rw [here_opened, here_opened]
  exact (hc.here prev List.mem_cons_self).symm

/-- The records before are those that the last harvest would have made by itself. -/
theorem Cycle.mem_before_iff (hc : Cycle h past prev) (ha : h.Agrees past prev) (r : Record) :
    r ∈ (h.after (prev :: past)).cache.records ↔
      ∃ p ∈ h.leaders prev, h.recordOf prev p = some r :=
  (ha r).trans (hc.mem_after_singleton_iff hi r)

/-- A leader that is unchanged is not visited. -/
theorem Cycle.not_mem_visited (hc : Cycle h past fs) (hp : (h.opened fs).has p = true)
    (hk : p ∈ h.leaders fs → (h.after past).checkpoint.isChanged (h.opened fs) p = false) :
    p.text ∉ h.visited (h.after past) fs := by
  rw [(hc.harvested hi).mem_visited_iff]
  rintro (⟨-, hn⟩ | ⟨hl, hchanged⟩)
  · cases hp.symm.trans hn
  · cases hchanged.symm.trans (hk hl)

/-- Where a cycle agrees again the history was settled. -/
theorem Cycle.settled_of_agrees (hist : History h (prev :: past))
    (hc : Cycle h (prev :: past) fs) (hbefore : h.Agrees past prev)
    (ha : h.Agrees (prev :: past) fs) : h.Settled (prev :: past) fs := by
  have hrecords := (hc.harvested hi).mem_records_iff
  have hprev : Cycle h past prev := by
    obtain - | ⟨-, cycle⟩ := hist
    exact cycle
  constructor
  · intro p hp hsome hlast
    obtain ⟨r, hr⟩ := Option.isSome_iff_exists.mp hsome
    rw [← hc.isChanged_eq_false_iff hi hist hp] at hlast
    have hr' := (ha r).mpr ((hc.mem_after_singleton_iff hi r).mpr ⟨p, hp, hr⟩)
    refine ⟨prev, rfl, ?_⟩
    -- The record was not made now, so it comes from the harvest before.
    rcases (hrecords r).mp hr' with ⟨q, -, hq, hqr⟩ | ⟨hold, -⟩
    · obtain rfl : q = p :=
        congrArg Path.mk ((source_of_recordOf hqr).symm.trans (source_of_recordOf hr))
      cases hq.symm.trans hlast
    · obtain ⟨q, hq, hqr⟩ := (hprev.mem_before_iff hi hbefore r).mp hold
      obtain rfl : q = p :=
        congrArg Path.mk ((source_of_recordOf hqr).symm.trans (source_of_recordOf hr))
      exact hq
  · intro prev' hprev' p hp hsome hhas
    obtain rfl := Option.some.inj hprev'
    obtain ⟨r, hr⟩ := Option.isSome_iff_exists.mp hsome
    by_contra hn
    have hsource := source_of_recordOf hr
    have hold := (hprev.mem_before_iff hi hbefore r).mpr ⟨p, hp, hr⟩
    have hvisited := hc.not_mem_visited hi hhas fun hl => (hn hl).elim
    have hr' := (ha r).mp ((hrecords r).mpr (.inr ⟨hold, by rwa [hsource], by rwa [hsource]⟩))
    obtain ⟨q, hq, hqr⟩ := (hc.mem_after_singleton_iff hi r).mp hr'
    obtain rfl : q = p := congrArg Path.mk ((source_of_recordOf hqr).symm.trans hsource)
    exact hn hq

/-- Where the history was settled a cycle agrees again. -/
theorem Cycle.agrees_of_settled (hist : History h (prev :: past))
    (hc : Cycle h (prev :: past) fs) (hbefore : h.Agrees past prev)
    (hs : h.Settled (prev :: past) fs) : h.Agrees (prev :: past) fs := by
  have hprev : Cycle h past prev := by
    obtain - | ⟨-, cycle⟩ := hist
    exact cycle
  intro r
  rw [(hc.harvested hi).mem_records_iff, hc.mem_after_singleton_iff hi]
  constructor
  · rintro (⟨p, hp, -, hr⟩ | ⟨hold, hnot, hhas⟩)
    · exact ⟨p, hp, hr⟩
    · obtain ⟨p, hp, hr⟩ := (hprev.mem_before_iff hi hbefore r).mp hold
      rw [source_of_recordOf hr] at hnot hhas
      have hl := hs.dropped prev rfl p hp (by rw [hr]; rfl) hhas
      have hk : (h.after (prev :: past)).checkpoint.isChanged (h.opened fs) p = false := by
        by_contra hk
        exact hnot (((hc.harvested hi).mem_visited_iff p).mpr (.inr ⟨hl, by simpa using hk⟩))
      exact ⟨p, hl, by rw [hc.recordOf_eq hi hist hl hp hk, hr]⟩
  · rintro ⟨p, hp, hr⟩
    cases hk : (h.after (prev :: past)).checkpoint.isChanged (h.opened fs) p with
    | true => exact .inl ⟨p, hp, hk, hr⟩
    | false =>
      obtain ⟨prev', hprev', hp'⟩ := hs.resumed p hp (by rw [hr]; rfl)
        ((hc.isChanged_eq_false_iff hi hist hp).mp hk)
      obtain rfl := Option.some.inj hprev'
      have hhas := (FileSystem.mem_of_mem_leaders hp).2
      rw [hc.recordOf_eq hi hist hp hp' hk] at hr
      have hsource := source_of_recordOf hr
      refine .inr ⟨(hprev.mem_before_iff hi hbefore r).mpr ⟨p, hp', hr⟩, ?_, by rwa [hsource]⟩
      rw [hsource]
      exact hc.not_mem_visited hi hhas fun _ => hk

end

/-! ## All harvests -/

/-- In a history the cache holds after every harvest the records that a single harvest leaves, just
if after every harvest nothing is back with an old time and nothing is passed over that is still
there. -/
theorem agrees_iff_settled (h : Harvester) (hi : h.IsIncremental) (fss : List FileSystem)
    (hist : History h fss) :
    (∀ fs past, fs :: past <:+ fss → h.Agrees past fs) ↔
      ∀ fs past, fs :: past <:+ fss → h.Settled past fs := by
  induction hist with
  | nil => exact ⟨fun _ _ _ hs => by simp at hs, fun _ _ _ hs => by simp at hs⟩
  | @cons past fs before cycle ih =>
    have hsplit (P : List FileSystem → FileSystem → Prop) :
        (∀ gs qs, gs :: qs <:+ fs :: past → P qs gs) ↔
          P past fs ∧ ∀ gs qs, gs :: qs <:+ past → P qs gs := by
      constructor
      · intro hall
        exact ⟨hall fs past List.suffix_rfl,
          fun gs qs hq => hall gs qs (hq.trans (List.suffix_cons fs past))⟩
      · rintro ⟨hlast, hall⟩ gs qs hq
        rcases List.suffix_cons_iff.mp hq with heq | hq
        · obtain ⟨rfl, rfl⟩ := List.cons.inj heq
          exact hlast
        · exact hall gs qs hq
    rw [hsplit, hsplit, ih]
    refine and_congr_left fun hsettled => ?_
    -- The cache agreed after the harvest before, if there was one.
    have hagrees := ih.mpr hsettled
    cases past with
    | nil => exact ⟨fun _ => settled_nil h fs, fun _ => agrees_nil h fs⟩
    | cons prev past =>
      have hbefore := hagrees prev past List.suffix_rfl
      exact ⟨cycle.settled_of_agrees hi before hbefore, cycle.agrees_of_settled hi before hbefore⟩

/-! ## A file that comes back -/

/-- The files when the catalog file is away. -/
def emptiedFiles : FileSystem :=
  { Crawler.catalogFiles with root := .entry "c" (.directory .empty) .empty }

theorem isIncremental_ofCatalogs (roots : List Path) (checkpointPath : Option Path) :
    (ofCatalogs roots checkpointPath).IsIncremental := ⟨rfl, rfl⟩

/-- Without a file of records nothing disturbs the candidates. -/
theorem Cycle.of_recordFile_eq_none (hf : h.recordFile = none) (hs : h.Succeeds (h.after past) fs)
    (hr : fs.Unlimited) (ho : fs.root.Ordered) (hh : fs.HasProperHere) (hhere : ∀ gs ∈ past, gs.here = fs.here)
    (hon : ∀ p ∈ h.candidates fs, ∀ v ∈ h.lastVisit past p,
      (h.opened fs).read p ≠ v.1 → (h.opened fs).modified p ≠ v.2) : Cycle h past fs where
  succeeds := hs
  fresh hn := (hn hr).elim
  ordered := ho
  proper := hh
  here := hhere
  undisturbed :=
    ⟨undisturbed_of_apart ho hs fun q hq => (by simp [hf] at hq),
      undisturbed_of_apart ho (hs.of_state ho hr .empty) fun q hq => (by simp [hf] at hq)⟩
  honest := hon

theorem ordered_catalogFiles : Crawler.catalogFiles.root.Ordered := by
  simp [Crawler.catalogFiles, Directory.Ordered, Entry.Ordered, Directory.get?]

theorem ordered_emptiedFiles : emptiedFiles.root.Ordered := by
  simp [emptiedFiles, Directory.Ordered, Entry.Ordered, Directory.get?]

set_option maxRecDepth 100000 in
theorem cycle_catalogFiles : Cycle (ofCatalogs [⟨"c"⟩] none) [] Crawler.catalogFiles :=
  .of_recordFile_eq_none rfl (succeeds_of_isOk (by decide +kernel)) (fun _ => rfl) ordered_catalogFiles
    (fun _ hn => by cases hn) (by simp) (by decide +kernel)

set_option maxRecDepth 100000 in
/-- A file that has not changed keeps its record. -/
theorem agrees_of_unchanged :
    (ofCatalogs [⟨"c"⟩] none).Agrees [Crawler.catalogFiles] Crawler.catalogFiles ∧
      ((ofCatalogs [⟨"c"⟩] none).after [Crawler.catalogFiles, Crawler.catalogFiles]).cache.records ≠
        [] := by
  have hcycle : Cycle (ofCatalogs [⟨"c"⟩] none) [Crawler.catalogFiles] Crawler.catalogFiles :=
    .of_recordFile_eq_none rfl (succeeds_of_isOk (by decide +kernel)) (fun _ => rfl) ordered_catalogFiles
      (fun _ hn => by cases hn) (by simp) (by decide +kernel)
  have hiff := agrees_iff_settled (ofCatalogs [⟨"c"⟩] none) (isIncremental_ofCatalogs _ _)
    [Crawler.catalogFiles, Crawler.catalogFiles] (.cons (.cons .nil cycle_catalogFiles) hcycle)
  refine ⟨hiff.mpr ?_ _ _ List.suffix_rfl, by decide +kernel⟩
  intro fs past hs
  rcases List.suffix_cons_iff.mp hs with heq | hs
  · obtain ⟨rfl, rfl⟩ := List.cons.inj heq
    exact ⟨fun p hp _ _ => ⟨_, rfl, hp⟩, fun prev hprev p hp _ _ => Option.some.inj hprev ▸ hp⟩
  rcases List.suffix_cons_iff.mp hs with heq | hs
  · obtain ⟨rfl, rfl⟩ := List.cons.inj heq
    exact settled_nil _ _
  · simp at hs

set_option maxRecDepth 100000 in
/-- A file that is away during a harvest, and is back with its old time, loses its record. -/
theorem record_lost :
    ¬∀ (h : Harvester) (fss : List FileSystem), h.IsIncremental → History h fss →
      ∀ fs past, fs :: past <:+ fss → h.Agrees past fs := by
  intro hall
  have haway : Cycle (ofCatalogs [⟨"c"⟩] none) [Crawler.catalogFiles] emptiedFiles :=
    .of_recordFile_eq_none rfl (succeeds_of_isOk (by decide +kernel)) (fun _ => rfl) ordered_emptiedFiles
      (fun _ hn => by cases hn) (by simp [emptiedFiles]) (by decide +kernel)
  have hback : Cycle (ofCatalogs [⟨"c"⟩] none) [emptiedFiles, Crawler.catalogFiles]
      Crawler.catalogFiles :=
    .of_recordFile_eq_none rfl (succeeds_of_isOk (by decide +kernel)) (fun _ => rfl) ordered_catalogFiles
      (fun _ hn => by cases hn) (by simp [emptiedFiles]) (by decide +kernel)
  have hagrees := hall _ _ (isIncremental_ofCatalogs [⟨"c"⟩] none)
    (.cons (.cons (.cons .nil cycle_catalogFiles) haway) hback) _ _ List.suffix_rfl
  have hlost : ((ofCatalogs [⟨"c"⟩] none).after
      [Crawler.catalogFiles, emptiedFiles, Crawler.catalogFiles]).cache.records = [] := by
    decide +kernel
  have hkept : ((ofCatalogs [⟨"c"⟩] none).after [Crawler.catalogFiles]).cache.records ≠ [] := by
    decide +kernel
  obtain ⟨r, hr⟩ := List.exists_mem_of_ne_nil _ hkept
  have hr' := (hagrees r).mpr hr
  rw [hlost] at hr'
  cases hr'

end ArchiveLabels.Harvester
