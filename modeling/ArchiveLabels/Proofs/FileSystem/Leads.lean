import ArchiveLabels.Proofs.FileSystem.Places

/-!
# How paths lead somewhere

`FileSystem.Leads` takes a path apart into the steps by which it is followed : one rule for each
kind of segment. `FileSystem.follow_eq_ok_iff` : a path is followed with success just if there are
such steps, so that what holds of paths that lead somewhere is shown by going through them.
-/

namespace ArchiveLabels.FileSystem

/-- The segment names an entry that there may be. -/
structure Names (s : String) : Prop where
  not_blank : ¬(s = "" ∨ s = ".")
  not_up : s ≠ ".."
  short : s.utf8ByteSize ≤ longestName

/-- A list of segments leads from a place to another by way of at most `links` links. -/
inductive Leads (root : Directory) (last : Bool) :
    (links : Nat) → (here segments : List String) → Place → Prop where
  /-- There are no segments left. -/
  | arrived {n : Nat} {here : List String} {e : Entry} (h : root.at? here = some e) :
    Leads root last n here [] (.found here e)
  /-- A segment that names nothing. -/
  | skip {n : Nat} {here rest : List String} {s : String} {r : Place}
    (hd : root.look here = some .directory) (hs : s = "" ∨ s = ".")
    (h : Leads root last n here rest r) : Leads root last n here (s :: rest) r
  /-- A `..`. -/
  | up {n : Nat} {here rest : List String} {r : Place} (hd : root.look here = some .directory)
    (h : Leads root last n here.tail rest r) : Leads root last n here (".." :: rest) r
  /-- A name that the directory does not have. -/
  | vacant {n : Nat} {here rest : List String} {s : String}
    (hd : root.look here = some .directory) (hs : Names s) (hg : root.look (s :: here) = none)
    (hr : rest.all (· = "") = true) :
    Leads root last n here (s :: rest) (.vacant here s !rest.isEmpty)
  /-- The name of a link at the end that is not followed. -/
  | stay {n : Nat} {here : List String} {s : String} {target : Path} (hs : Names s)
    (hg : root.look (s :: here) = some (.link target)) (hl : last = false) :
    Leads root last n here [s] (.found (s :: here) (.link target))
  /-- The name of a link that is followed. -/
  | link {n : Nat} {here rest : List String} {s : String} {r : Place} {target : Path}
    (hs : Names s) (hg : root.look (s :: here) = some (.link target))
    (hl : rest = [] → last = true)
    (h : Leads root last n (if target.isAbsolute then [] else here) (target.segments ++ rest) r) :
    Leads root last (n + 1) here (s :: rest) r
  /-- The name of a file or a directory. -/
  | enter {n : Nat} {here rest : List String} {s : String} {r : Place} {f : Form} (hs : Names s)
    (hg : root.look (s :: here) = some f) (hf : ∀ target, f ≠ .link target)
    (h : Leads root last n (s :: here) rest r) : Leads root last n here (s :: rest) r

variable {root : Directory} {last : Bool}
  {next : List String → Path → List String → Except FileError Place} {here rest : List String}
  {s : String} {r : Place}

theorem followSegments_nil :
    followSegments root last next here [] =
      match root.at? here with
      | none => .error .notFound
      | some e => .ok (.found here e) := by
  unfold followSegments Directory.at?
  cases Entry.find? here.reverse (.directory root) <;> rfl

theorem followSegments_cons {d : Directory} (hd : root.at? here = some (.directory d)) :
    followSegments root last next here (s :: rest) =
      if s = "" ∨ s = "." then followSegments root last next here rest
      else if s = ".." then followSegments root last next here.tail rest
      else if longestName < s.utf8ByteSize then .error .nameTooLong
      else
        match d.get? s with
        | none => if rest.all (· = "") then .ok (.vacant here s !rest.isEmpty) else .error .notFound
        | some (.link target) =>
          if rest.isEmpty && !last then .ok (.found (s :: here) (.link target))
          else next here target rest
        | some _ => followSegments root last next (s :: here) rest := by
  unfold Directory.at? at hd
  rw [followSegments.eq_def root last next here (s :: rest), hd]
  by_cases hs : s = "" ∨ s = "."
  · exact (if_pos (by simpa using hs)).trans (if_pos hs).symm
  · exact (if_neg (by simpa using hs)).trans (if_neg hs).symm

/-- A segment is only gone through in a directory. -/
theorem directory_of_followSegments (h : followSegments root last next here (s :: rest) = .ok r) :
    ∃ d, root.at? here = some (.directory d) := by
  unfold followSegments at h
  unfold Directory.at?
  cases he : Entry.find? here.reverse (.directory root) with
  | none => simp [he] at h
  | some f =>
    cases f with
    | directory d => exact ⟨d, rfl⟩
    | _ => simp [he] at h

/-- What is found with success is found by steps, if links are. -/
theorem leads_of_followSegments {n : Nat} {segments : List String}
    (hn : ∀ here target rest s, Names s → root.look (s :: here) = some (.link target) →
      (rest = [] → last = true) → next here target rest = .ok r →
      Leads root last n here (s :: rest) r)
    (h : followSegments root last next here segments = .ok r) :
    Leads root last n here segments r := by
  induction segments generalizing here with
  | nil =>
    rw [followSegments_nil] at h
    split at h
    · cases h
    · obtain rfl := Except.ok.inj h
      exact .arrived ‹_›
  | cons s rest ih =>
    obtain ⟨d, hd⟩ := directory_of_followSegments h
    have hdir := Directory.look_eq_directory_iff.mpr ⟨d, hd⟩
    have hlook : root.look (s :: here) = (d.get? s).map Entry.form := by
      rw [Directory.look, Directory.at?_cons_of_directory hd]
    rw [followSegments_cons hd] at h
    by_cases hs : s = "" ∨ s = "."
    · rw [if_pos hs] at h
      exact .skip hdir hs (ih h)
    rw [if_neg hs] at h
    by_cases hu : s = ".."
    · rw [if_pos hu] at h
      exact hu ▸ .up hdir (ih h)
    rw [if_neg hu] at h
    by_cases hl : longestName < s.utf8ByteSize
    · rw [if_pos hl] at h
      cases h
    rw [if_neg hl] at h
    have hname : Names s := ⟨hs, hu, Nat.le_of_not_lt hl⟩
    cases hg : d.get? s with
    | none =>
      rw [hg] at h hlook
      dsimp only at h
      split at h
      · obtain rfl := Except.ok.inj h
        exact .vacant hdir hname hlook ‹_›
      · cases h
    | some e =>
      rw [hg] at h hlook
      cases e with
      | link target =>
        dsimp only at h
        split at h
        · rename_i he
          obtain ⟨rfl, rfl⟩ : rest = [] ∧ last = false := by simpa using he
          obtain rfl := Except.ok.inj h
          exact .stay hname hlook rfl
        · rename_i he
          exact hn here target rest s hname hlook (by simpa using he) h
      | file content t => exact .enter hname hlook (by simp [Entry.form]) (ih h)
      | directory f => exact .enter hname hlook (by simp [Entry.form]) (ih h)

/-- How a link on the way is followed if `links` more may be. -/
def onLink (root : Directory) (last : Bool) :
    (links : Nat) → List String → Path → List String → Except FileError Place
  | 0, _, _, _ => .error .tooManyLinks
  | n + 1, here, target, rest =>
    follow root last n (if target.isAbsolute then [] else here) (target.segments ++ rest)

/-- A path is followed segment by segment; links met on the way are counted down from `n`. -/
theorem follow_eq (n : Nat) (segments : List String) :
    follow root last n here segments = followSegments root last (onLink root last n) here segments :=
  by cases n <;> rfl

/-- What is followed leads there. -/
theorem leads_of_follow {n : Nat} {segments : List String}
    (h : follow root last n here segments = .ok r) : Leads root last n here segments r := by
  induction n generalizing here segments with
  | zero =>
    rw [follow_eq] at h
    exact leads_of_followSegments (fun _ _ _ _ _ _ _ h => by cases h) h
  | succ n ih =>
    exact leads_of_followSegments (fun _ _ _ _ hs hg hl h => .link hs hg hl (ih h)) h

/-- How a name is followed. -/
theorem follow_cons_of_names {n : Nat} {d : Directory} (hd : root.at? here = some (.directory d))
    (hs : Names s) :
    follow root last n here (s :: rest) =
      match d.get? s with
      | none => if rest.all (· = "") then .ok (.vacant here s !rest.isEmpty) else .error .notFound
      | some (.link target) =>
        if rest.isEmpty && !last then .ok (.found (s :: here) (.link target))
        else onLink root last n here target rest
      | some _ => follow root last n (s :: here) rest := by
  rw [follow_eq, followSegments_cons hd, if_neg hs.not_blank, if_neg hs.not_up,
    if_neg (Nat.not_lt.mpr hs.short), ← follow_eq]

/-- Following a path finds what it leads to. -/
theorem Leads.follow {n : Nat} {segments : List String} (h : Leads root last n here segments r) :
    follow root last n here segments = .ok r := by
  have entry {f : Form} {s : String} {here : List String} (hg : root.look (s :: here) = some f) :
      ∃ d e, root.at? here = some (.directory d) ∧ d.get? s = some e ∧ e.form = f := by
    obtain ⟨d, hd⟩ := Directory.look_eq_directory_iff.mp (Directory.look_eq_directory_of_cons hg)
    rw [Directory.look, Directory.at?_cons_of_directory hd] at hg
    obtain ⟨e, he, hf⟩ := Option.map_eq_some_iff.mp hg
    exact ⟨d, e, hd, he, hf⟩
  induction h with
  | arrived h => rw [follow_eq, followSegments_nil, h]
  | skip hd hs _ ih =>
    obtain ⟨d, hd⟩ := Directory.look_eq_directory_iff.mp hd
    rw [follow_eq, followSegments_cons hd, if_pos hs, ← follow_eq, ih]
  | up hd _ ih =>
    obtain ⟨d, hd⟩ := Directory.look_eq_directory_iff.mp hd
    rw [follow_eq, followSegments_cons hd, if_neg (by decide), if_pos rfl, ← follow_eq, ih]
  | vacant hd hs hg hr =>
    obtain ⟨d, hd⟩ := Directory.look_eq_directory_iff.mp hd
    rw [Directory.look_eq_none_iff, Directory.at?_cons_of_directory hd] at hg
    rw [follow_cons_of_names hd hs, hg]
    simp only [hr, if_true]
  | stay hs hg hl =>
    obtain ⟨d, e, hd, hg, he⟩ := entry hg
    obtain rfl := Entry.form_eq_link_iff.mp he
    rw [follow_cons_of_names hd hs, hg]
    simp [hl]
  | link hs hg hl _ ih =>
    obtain ⟨d, e, hd, hg, he⟩ := entry hg
    obtain rfl := Entry.form_eq_link_iff.mp he
    rw [follow_cons_of_names hd hs, hg]
    dsimp only
    rw [if_neg (by simpa using hl)]
    exact ih
  | enter hs hg hf _ ih =>
    obtain ⟨d, e, hd, he, rfl⟩ := entry hg
    rw [follow_cons_of_names hd hs, he]
    cases e with
    | link target => exact (hf target rfl).elim
    | _ => exact ih

/-- A path is followed with success just if there are steps by which it leads somewhere. -/
theorem follow_eq_ok_iff {n : Nat} {segments : List String} :
    follow root last n here segments = .ok r ↔ Leads root last n here segments r :=
  ⟨leads_of_follow, Leads.follow⟩

/-- What is found stands where it is found. -/
theorem Leads.at?_eq {n : Nat} {segments place : List String} {e : Entry}
    (h : Leads root last n here segments r) (hr : r = .found place e) : root.at? place = some e := by
  induction h with
  | arrived h =>
    cases hr
    exact h
  | stay _ hg =>
    cases hr
    obtain ⟨e, he, hf⟩ := Option.map_eq_some_iff.mp hg
    rw [he, Entry.form_eq_link_iff.mp hf]
  | vacant => cases hr
  | skip _ _ _ ih => exact ih hr
  | up _ _ ih => exact ih hr
  | link _ _ _ _ ih => exact ih hr
  | enter _ _ _ _ ih => exact ih hr

/-- Where a name is missing there is a directory without it. -/
theorem Leads.look_of_vacant {n : Nat} {segments place : List String} {name : String} {slash : Bool}
    (h : Leads root last n here segments r) (hr : r = .vacant place name slash) :
    root.look place = some .directory ∧ root.look (name :: place) = none := by
  induction h with
  | vacant hd _ hg =>
    cases hr
    exact ⟨hd, hg⟩
  | arrived => cases hr
  | stay => cases hr
  | skip _ _ _ ih => exact ih hr
  | up _ _ ih => exact ih hr
  | link _ _ _ _ ih => exact ih hr
  | enter _ _ _ _ ih => exact ih hr

/-- A path that leads somewhere starts in a directory. -/
theorem Leads.directory {n : Nat} {segments : List String}
    (h : Leads root last n here segments r) (hs : segments ≠ []) :
    root.look here = some .directory := by
  cases h with
  | arrived => exact (hs rfl).elim
  | skip hd => exact hd
  | up hd => exact hd
  | vacant hd => exact hd
  | stay _ hg => exact Directory.look_eq_directory_of_cons hg
  | link _ hg => exact Directory.look_eq_directory_of_cons hg
  | enter _ hg => exact Directory.look_eq_directory_of_cons hg

/-! ## Paths -/

variable {fs gs : FileSystem} {p : Path} {e : Entry}

/-- Where the segments of a path are gone through from. -/
def start (fs : FileSystem) (p : Path) : List String :=
  if p.isAbsolute then [] else fs.here

theorem start_congr (h : gs.here = fs.here) (p : Path) : gs.start p = fs.start p := by
  rw [start, start, h]

/-- A located path leads from its start along its segments. -/
theorem leads_of_locate (h : fs.locate last p = .ok r) :
    Leads fs.root last linkBound (fs.start p) p.segments r := by
  unfold locate at h
  split at h
  · cases h
  · split at h
    · cases h
    · split at h
      · cases h
      · exact leads_of_follow h

/-- A path that is followed with success may be followed elsewhere too. -/
theorem locate_eq_ok {q : Place} (h : fs.locate last p = .ok r)
    (hl : Leads gs.root last linkBound (gs.start p) p.segments q) :
    gs.locate last p = .ok q := by
  unfold locate at h ⊢
  split at h
  · cases h
  · rw [if_neg ‹_›]
    split at h
    · cases h
    · rw [if_neg ‹_›]
      split at h
      · cases h
      · rw [if_neg ‹_›]
        exact hl.follow

theorem text_ne_of_locate (h : fs.locate last p = .ok r) : p.text ≠ "" := by
  intro hp
  unfold locate at h
  rw [if_pos hp] at h
  split at h <;> cases h

/-- The entry of a path is the one at the place it leads to. -/
theorem entry?_eq_ok_iff :
    fs.entry? p = .ok e ↔ ∃ place, fs.locate true p = .ok (.found place e) := by
  unfold entry?
  split <;> rename_i h <;> simp [h]

/-- The path leads to what stands at the place. -/
def LeadsTo (fs : FileSystem) (p : Path) (place : List String) : Prop :=
  ∃ e, fs.locate true p = .ok (.found place e)

/-- A path leads to one place. -/
theorem LeadsTo.eq {place place' : List String} (h : fs.LeadsTo p place)
    (h' : fs.LeadsTo p place') : place = place' := by
  obtain ⟨e, he⟩ := h
  obtain ⟨e', he'⟩ := h'
  cases he.symm.trans he'
  rfl

/-- The paths lead to no common place. -/
def Apart (fs : FileSystem) (p q : Path) : Prop :=
  ∀ place, fs.LeadsTo p place → ¬fs.LeadsTo q place

theorem at?_of_locate {place : List String} (h : fs.locate last p = .ok (.found place e)) :
    fs.root.at? place = some e :=
  (leads_of_locate h).at?_eq rfl

end ArchiveLabels.FileSystem
