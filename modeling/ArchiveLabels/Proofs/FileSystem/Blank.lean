import ArchiveLabels.Crawl.Walk
import ArchiveLabels.Proofs.FileSystem.Frame

/-!
# File systems of one shape

What the files of a directory hold makes no difference to where a path leads and to which files a
crawl takes for candidates. `Directory.blank` forgets it, and file systems are `FileSystem.Alike`
whose directories are the same then. Writing a file that is there keeps a file system alike
(`FileSystem.alike_writeWith`), as long as entries stand in the order of their names.
-/

namespace ArchiveLabels

/-! ## Blank files -/

mutual

/-- The entry with nothing in its files. -/
def Entry.blank : Entry → Entry
  | .file _ _ => .file .empty .epoch
  | .directory d => .directory d.blank
  | .link target => .link target

/-- The directory with nothing in its files. -/
def Directory.blank : Directory → Directory
  | .empty => .empty
  | .entry name e rest => .entry name e.blank rest.blank

end

namespace Entry

variable {e : Entry}

theorem exists_file_of_blank {content : ByteArray} {t : Timestamp}
    (h : e.blank = (file content t).blank) : ∃ content t, e = file content t := by
  cases e with
  | file content t => exact ⟨content, t, rfl⟩
  | directory d => simp [blank] at h
  | link target => simp [blank] at h

theorem exists_directory_of_blank {d : Directory} (h : e.blank = (directory d).blank) :
    ∃ d', e = directory d' ∧ d'.blank = d.blank := by
  cases e with
  | file content t => simp [blank] at h
  | directory d' => exact ⟨d', rfl, by simpa [blank] using h⟩
  | link target => simp [blank] at h

theorem eq_link_of_blank {target : Path} (h : e.blank = (link target).blank) : e = link target := by
  cases e with
  | file content t => simp [blank] at h
  | directory d => simp [blank] at h
  | link target' => simpa [blank] using h

end Entry

namespace Directory

theorem get?_blank (name : String) (d : Directory) :
    d.blank.get? name = (d.get? name).map Entry.blank := by
  fun_induction get? name d with
  | case1 => simp [blank, get?]
  | case2 => simp [blank, get?]
  | case3 n e rest h ih => simp [blank, get?, h, ih]

/-- Putting an entry and blanking the contents may be done in either order. -/
theorem put_blank (name : String) (e : Entry) (d : Directory) :
    (d.put name e).blank = d.blank.put name e.blank := by
  fun_induction put name e d with
  | case1 => simp [blank, put]
  | case2 n f rest h => simp [blank, put, h]
  | case3 f rest h => simp [blank, put]
  | case4 n f rest h hn ih => simp [blank, put, h, hn, ih]

/-- What stands in a directory may be put there again. -/
theorem put_self {name : String} {e : Entry} {d : Directory} (ho : d.Ordered)
    (h : d.get? name = some e) : d.put name e = d := by
  fun_induction put name e d with
  | case1 => simp [get?] at h
  | case2 n f rest hlt =>
    rw [get?] at h
    split at h
    · rename_i he
      exact absurd (he ▸ hlt) (String.lt_irrefl name)
    · exact absurd (String.lt_trans hlt (ho.2.1 name e h)) (String.lt_irrefl name)
  | case3 f rest =>
    rw [get?, if_pos rfl] at h
    rw [Option.some.inj h]
  | case4 n f rest _ hn ih =>
    rw [get?, if_neg hn] at h
    rw [ih ho.2.2 h]

end Directory

mutual

theorem Entry.ordered_blank : ∀ e : Entry, e.blank.Ordered ↔ e.Ordered
  | .file _ _ => by simp [Entry.blank, Entry.Ordered]
  | .link _ => by simp [Entry.blank, Entry.Ordered]
  | .directory d => by
    rw [Entry.blank, Entry.Ordered, Entry.Ordered]
    exact Directory.ordered_blank d

theorem Directory.ordered_blank : ∀ d : Directory, d.blank.Ordered ↔ d.Ordered
  | .empty => by simp [Directory.blank]
  | .entry name e rest => by
    rw [Directory.blank, Directory.Ordered, Directory.Ordered, Entry.ordered_blank e,
      Directory.ordered_blank rest]
    simp [Directory.get?_blank]

end

namespace Entry

/-- Blanking keeps every entry at its place. -/
theorem find?_blank (names : List String) (e : Entry) :
    e.blank.find? names = (e.find? names).map blank := by
  induction names generalizing e with
  | nil => simp [find?]
  | cons n names ih =>
    cases e with
    | directory d =>
      rw [blank, find?, find?, Directory.get?_blank]
      cases d.get? n with
      | none => rfl
      | some e => exact ih e
    | _ => simp [blank, find?]

/-- A change of the blanked tree is the blanked change. -/
theorem change_blank (new : Entry) (names : List String) (e : Entry) :
    (e.change (some new) names).blank = e.blank.change (some new.blank) names := by
  induction names generalizing e with
  | nil => simp [change]
  | cons n names ih =>
    cases e with
    | directory d =>
      cases names with
      | nil => simp [change, blank, Directory.put_blank]
      | cons m names =>
        rw [change, blank, change, Directory.get?_blank]
        cases d.get? n with
        | none => rfl
        | some e =>
          simp only [blank, Directory.put_blank, Option.map_some]
          rw [ih]
    | _ => cases names <;> simp [change, blank]

/-- What stands at a place may be put there again. -/
theorem change_self {old : Entry} {names : List String} {e : Entry} (ho : e.Ordered)
    (h : e.find? names = some old) : e.change (some old) names = e := by
  induction names generalizing e with
  | nil =>
    obtain rfl := Option.some.inj h
    rfl
  | cons n names ih =>
    cases e with
    | directory d =>
      obtain ⟨f, hf, h⟩ := Option.bind_eq_some_iff.mp h
      cases names with
      | nil =>
        obtain rfl := Option.some.inj h
        rw [change, Directory.put_self ho hf]
      | cons m names =>
        simp only [change, hf]
        rw [ih (Directory.ordered_of_get? ho hf) h, Directory.put_self ho hf]
    | _ => simp [find?] at h

end Entry

theorem Directory.at?_blank (root : Directory) (place : List String) :
    root.blank.at? place = (root.at? place).map Entry.blank :=
  Entry.find?_blank place.reverse (.directory root)

/-! ## Candidates -/

namespace Filters

mutual

/-- The walk looks at names and kinds only, never into a file. -/
theorem candidatesAt_blank (f : Filters) (d : Label.Dialect) (p : Path) :
    ∀ e : Entry, f.candidatesAt d p e.blank = f.candidatesAt d p e
  | .file _ _ => by simp [Entry.blank, candidatesAt]
  | .link _ => by simp [Entry.blank, candidatesAt]
  | .directory entries => by
    rw [Entry.blank, candidatesAt, candidatesAt, candidatesIn_blank f d p entries]

theorem candidatesIn_blank (f : Filters) (d : Label.Dialect) (p : Path) :
    ∀ entries : Directory, f.candidatesIn d p entries.blank = f.candidatesIn d p entries
  | .empty => by simp [Directory.blank]
  | .entry name e rest => by
    rw [Directory.blank, candidatesIn, candidatesIn, candidatesAt_blank f d (p.join ⟨name⟩) e,
      candidatesIn_blank f d p rest]

end

end Filters

namespace FileSystem

/-! ## Where paths lead -/

/-- Where a path leads, with nothing in the files. -/
def Place.blank : Place → Place
  | .found place e => .found place e.blank
  | r => r

/-- One turn along a path does not read contents, provided the links it meets lead alike. -/
theorem followSegments_blank {root : Directory} {last : Bool}
    {next next' : List String → Path → List String → Except FileError Place}
    (hn : ∀ here target rest, next' here target rest = (next here target rest).map Place.blank)
    (here segments : List String) :
    followSegments root.blank last next' here segments =
      (followSegments root last next here segments).map Place.blank := by
  induction segments generalizing here with
  | nil =>
    rw [followSegments_nil, followSegments_nil, Directory.at?_blank]
    cases root.at? here <;> rfl
  | cons s rest ih =>
    have hblank := Directory.at?_blank root here
    cases hd : root.at? here with
    | none =>
      rw [hd] at hblank
      unfold Directory.at? at hd hblank
      rw [followSegments.eq_def, followSegments.eq_def, hd, hblank]
      rfl
    | some e =>
      rw [hd] at hblank
      cases e with
      | directory d =>
        rw [followSegments_cons hd, followSegments_cons hblank, ih, ih, ih, Directory.get?_blank]
        split
        · rfl
        split
        · rfl
        split
        · rfl
        cases d.get? s with
        | none =>
          dsimp only [Option.map_none]
          split <;> rfl
        | some e =>
          cases e with
          | link target =>
            dsimp only [Option.map_some, Entry.blank]
            split
            · rfl
            · exact hn here target rest
          | _ => rfl
      | _ =>
        unfold Directory.at? at hd hblank
        rw [followSegments.eq_def, followSegments.eq_def, hd, hblank]
        rfl

/-- A path leads alike in a tree and in its blank. -/
theorem follow_blank (root : Directory) (last : Bool) (n : Nat) (here segments : List String) :
    follow root.blank last n here segments = (follow root last n here segments).map Place.blank := by
  induction n generalizing here segments with
  | zero =>
    rw [follow_eq, follow_eq]
    refine followSegments_blank ?_ here segments
    exact fun _ _ _ => rfl
  | succ n ih =>
    rw [follow_eq, follow_eq]
    refine followSegments_blank ?_ here segments
    exact fun _ _ _ => ih _ _

/-! ## File systems that are alike -/

/-- The file systems differ at most in what their files hold. -/
structure Alike (fs gs : FileSystem) : Prop where
  here : gs.here = fs.here
  room : gs.room = fs.room
  blank : gs.root.blank = fs.root.blank

namespace Alike

variable {fs gs hs : FileSystem}

theorem refl (fs : FileSystem) : Alike fs fs := ⟨rfl, rfl, rfl⟩

theorem symm (h : Alike fs gs) : Alike gs fs := ⟨h.here.symm, h.room.symm, h.blank.symm⟩

theorem trans (h₁ : Alike fs gs) (h₂ : Alike gs hs) : Alike fs hs :=
  ⟨h₂.here.trans h₁.here, h₂.room.trans h₁.room, h₂.blank.trans h₁.blank⟩

/-- Every path leads to the same place in file systems alike. -/
theorem locate (h : Alike fs gs) (last : Bool) (p : Path) :
    (gs.locate last p).map Place.blank = (fs.locate last p).map Place.blank := by
  unfold FileSystem.locate
  split
  · rfl
  split
  · rfl
  split
  · rfl
  rw [← follow_blank, ← follow_blank, h.blank, h.here]

/-- A path leads to the same place in both. -/
theorem found (h : Alike fs gs) {last : Bool} {p : Path} {place : List String} {e : Entry}
    (hl : fs.locate last p = .ok (.found place e)) :
    ∃ e', gs.locate last p = .ok (.found place e') ∧ e'.blank = e.blank := by
  have hg := h.locate last p
  rw [hl] at hg
  rcases hr : gs.locate last p with e' | ⟨place', e'⟩ | ⟨d, n, slash⟩
  · rw [hr] at hg
    cases hg
  · rw [hr] at hg
    injection hg with hg
    injection hg with hplace he
    exact ⟨e', by rw [hplace], he⟩
  · rw [hr] at hg
    cases hg

/-- A path leads to nothing in both. -/
theorem vacant (h : Alike fs gs) {last : Bool} {p : Path} {place : List String} {name : String}
    {slash : Bool} (hl : fs.locate last p = .ok (.vacant place name slash)) :
    gs.locate last p = .ok (.vacant place name slash) := by
  have hg := h.locate last p
  rw [hl] at hg
  rcases hr : gs.locate last p with e' | ⟨place', e'⟩ | ⟨d, n, slash'⟩
  · rw [hr] at hg
    cases hg
  · rw [hr] at hg
    cases hg
  · rw [hr] at hg
    exact hg

/-- A path that leads nowhere fails for the same reason in file systems alike. -/
theorem locate_error (h : Alike fs gs) {last : Bool} {p : Path} {e : FileError}
    (hl : fs.locate last p = .error e) : gs.locate last p = .error e := by
  have hg := h.locate last p
  rw [hl] at hg
  rcases hr : gs.locate last p with e' | ⟨place', e'⟩ | ⟨d, n, slash'⟩
  · rw [hr] at hg
    exact hg
  · rw [hr] at hg
    cases hg
  · rw [hr] at hg
    cases hg

/-- Where one has an entry the other has one of the same blank. -/
theorem entry?_ok (h : Alike fs gs) {p : Path} {e : Entry} (he : fs.entry? p = .ok e) :
    ∃ e', gs.entry? p = .ok e' ∧ e'.blank = e.blank := by
  obtain ⟨place, hl⟩ := entry?_eq_ok_iff.mp he
  obtain ⟨e', hl', hb⟩ := h.found hl
  exact ⟨e', entry?_eq_ok_iff.mpr ⟨place, hl'⟩, hb⟩

theorem entry?_error (h : Alike fs gs) {p : Path} {e : FileError} (he : fs.entry? p = .error e) :
    gs.entry? p = .error e := by
  unfold FileSystem.entry? at he ⊢
  rcases hl : fs.locate true p with e' | ⟨place, e'⟩ | ⟨d, n, slash⟩
  · rw [hl] at he
    rw [h.locate_error hl]
    exact he
  · rw [hl] at he
    cases he
  · rw [hl] at he
    rw [h.vacant hl]
    exact he

theorem has (h : Alike fs gs) (p : Path) : gs.has p = fs.has p := by
  unfold FileSystem.has
  cases hf : fs.entry? p with
  | error e => rw [h.entry?_error hf]
  | ok e =>
    obtain ⟨e', hg, -⟩ := h.entry?_ok hf
    rw [hg]
    rfl

/-- The candidates below a root are the same. -/
theorem candidates (h : Alike fs gs) (f : Filters) (d : Label.Dialect) (root : Path) :
    gs.candidates f d root = fs.candidates f d root := by
  unfold FileSystem.candidates
  cases hf : fs.entry? root with
  | error e => rw [h.entry?_error hf]
  | ok e =>
    obtain ⟨e', hg, hb⟩ := h.entry?_ok hf
    rw [hg]
    cases e with
    | file content t =>
      obtain ⟨content', t', rfl⟩ := Entry.exists_file_of_blank hb
      simp [Filters.candidatesAt]
    | directory entries =>
      obtain ⟨entries', rfl, hblank⟩ := Entry.exists_directory_of_blank hb
      have hin : f.candidatesIn d root entries' = f.candidatesIn d root entries := by
        rw [← f.candidatesIn_blank, hblank, f.candidatesIn_blank]
      simp only [hin]
    | link target => rw [Entry.eq_link_of_blank hb]

theorem unlimited (h : Alike fs gs) (hu : fs.Unlimited) : gs.Unlimited :=
  fun place => by rw [h.room, hu]

theorem ordered (h : Alike fs gs) (ho : fs.root.Ordered) : gs.root.Ordered := by
  rw [← Directory.ordered_blank, h.blank, Directory.ordered_blank]
  exact ho

end Alike

/-! ## Changes -/

theorem blank_root_change (fs : FileSystem) (place : List String) (new : Entry) :
    (Entry.directory (fs.change place (some new)).root).blank =
      match Entry.change (some new.blank) place.reverse (.directory fs.root.blank) with
      | .directory d => .directory d
      | _ => .directory fs.root.blank := by
  have h := Entry.change_blank new place.reverse (.directory fs.root)
  rw [show (Entry.directory fs.root).blank = .directory fs.root.blank from rfl] at h
  rw [← h]
  unfold change
  cases Entry.change (some new) place.reverse (.directory fs.root) <;> rfl

/-- The same change keeps file systems alike. -/
theorem Alike.change {fs gs : FileSystem} (h : Alike fs gs) {new new' : Entry}
    (hn : new'.blank = new.blank) (place : List String) :
    Alike (fs.change place (some new)) (gs.change place (some new')) where
  here := by rw [here_change, here_change, h.here]
  room := by rw [room_change, room_change, h.room]
  blank := by
    have hroot := blank_root_change gs place new'
    rw [h.blank, hn, ← blank_root_change fs place new] at hroot
    exact Entry.directory.inj hroot

/-- A file that takes the place of a file keeps a file system alike. -/
theorem alike_change_file {fs : FileSystem} (ho : fs.root.Ordered) {place : List String}
    {old new : ByteArray} {t u : Timestamp} (hf : fs.root.at? place = some (.file old t)) :
    Alike fs (fs.change place (some (.file new u))) where
  here := here_change fs place _
  room := room_change fs place _
  blank := by
    have hat : (Entry.directory fs.root.blank).find? place.reverse =
        some (Entry.file old t).blank := by
      have := Directory.at?_blank fs.root place
      rwa [hf] at this
    have hordered : Entry.Ordered (.directory fs.root.blank) :=
      (Directory.ordered_blank fs.root).mpr ho
    have hroot := blank_root_change fs place (.file new u)
    rw [show (Entry.file new u).blank = (Entry.file old t).blank from rfl,
      Entry.change_self hordered hat] at hroot
    exact Entry.directory.inj hroot

/-- A file that is there can be written, which keeps the file system alike. -/
theorem alike_writeWith {fs : FileSystem} (ho : fs.root.Ordered) {p : Path} {place : List String}
    {bytes : ByteArray} {t : Timestamp} (hl : fs.locate true p = .ok (.found place (.file bytes t)))
    (content : ByteArray → ByteArray) :
    ∃ gs, (writeWith p content).run fs = (.ok (), gs) ∧ Alike fs gs := by
  refine ⟨_, by rw [run_writeWith, hl], ?_⟩
  have h : Alike fs (fs.change place (some (.file (content bytes) fs.clock))) :=
    alike_change_file ho (at?_of_locate hl)
  exact ⟨h.here, h.room, h.blank⟩

/-- Bytes that are written behind those of a file keep the file system alike, also if there is no
room for all of them. -/
theorem alike_append {fs : FileSystem} (ho : fs.root.Ordered) {p : Path} {place : List String}
    {old : ByteArray} {t : Timestamp} (hl : fs.locate true p = .ok (.found place (.file old t)))
    (bytes : ByteArray) : Alike fs ((append p bytes).run fs).2 := by
  obtain ⟨gs, hw, ha⟩ := alike_writeWith ho hl (· ++ bytes.extract 0 (fs.fitting p bytes))
  rw [run_append, hw]
  dsimp only
  split <;> exact ha

end FileSystem

end ArchiveLabels
