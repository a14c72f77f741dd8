import ArchiveLabels.Proofs.FileSystem.Leads

/-!
# What actions leave alone

`FileSystem.Keeps` : directories and links stay, and files stay files, so that a path leads where it
led (`FileSystem.Keeps.leadsTo`). `FileSystem.ChangesOnly` : besides, no file is new or changed but
those at given paths. It is a preorder, and `Action.ChangesOnly` is closed under the ways in which
actions are put together. Each action of the file system changes only the file it is to write :
`FileSystem.changesOnly_writeWith`, and `FileSystem.changesOnly_makeParent` for directories.
-/

namespace ArchiveLabels

namespace FileSystem

/-! ## Relations -/

/-- What stands in `fs` stands in `gs` : directories and links as they are, files perhaps with
another content. There are no more links, and entries stay in the order of their names. -/
structure Keeps (fs gs : FileSystem) : Prop where
  here : gs.here = fs.here
  room : gs.room = fs.room
  ordered : fs.root.Ordered → gs.root.Ordered
  directory : ∀ place, fs.root.look place = some .directory → gs.root.look place = some .directory
  link : ∀ place target,
    gs.root.look place = some (.link target) ↔ fs.root.look place = some (.link target)
  file : ∀ place content t, fs.root.look place = some (.file content t) →
    ∃ content t, gs.root.look place = some (.file content t)

/-- Files of `gs` that are not in `fs`, or have another content there, are at the given paths. -/
structure ChangesOnly (ps : List Path) (fs gs : FileSystem) : Prop extends Keeps fs gs where
  unwritten : ∀ place content t, gs.root.look place = some (.file content t) →
    fs.root.look place = some (.file content t) ∨ ∃ p ∈ ps, gs.LeadsTo p place

variable {fs gs hs : FileSystem} {ps qs : List Path} {p : Path} {place : List String} {last : Bool}

theorem Keeps.refl (fs : FileSystem) : Keeps fs fs where
  here := rfl
  room := rfl
  ordered h := h
  directory _ h := h
  link _ _ := Iff.rfl
  file _ content t h := ⟨content, t, h⟩

theorem Keeps.trans (h₁ : Keeps fs gs) (h₂ : Keeps gs hs) : Keeps fs hs where
  here := h₂.here.trans h₁.here
  room := h₂.room.trans h₁.room
  ordered h := h₂.ordered (h₁.ordered h)
  directory place h := h₂.directory place (h₁.directory place h)
  link place target := (h₂.link place target).trans (h₁.link place target)
  file place content t h := by
    obtain ⟨content, t, h⟩ := h₁.file place content t h
    exact h₂.file place content t h

/-- What is not a link stays something that is not a link. -/
theorem Keeps.look (h : Keeps fs gs) {f : Form} (hf : fs.root.look place = some f)
    (hl : ∀ target, f ≠ .link target) :
    ∃ g, gs.root.look place = some g ∧ ∀ target, g ≠ .link target := by
  cases f with
  | directory => exact ⟨_, h.directory place hf, by simp⟩
  | link target => exact (hl target rfl).elim
  | file content t =>
    obtain ⟨content, t, hg⟩ := h.file place content t hf
    exact ⟨_, hg, by simp⟩

/-- The steps by which something is found stay. -/
theorem Leads.keeps {n : Nat} {here segments : List String} {r : Place} {e : Entry}
    (h : Leads fs.root last n here segments r) (hr : r = .found place e) (hk : Keeps fs gs) :
    ∃ e', Leads gs.root last n here segments (.found place e') := by
  induction h with
  | arrived he =>
    cases hr
    have hlook : fs.root.look place = some e.form := by rw [Directory.look, he, Option.map_some]
    obtain ⟨g, hg⟩ : ∃ g, gs.root.look place = some g := by
      by_cases hl : ∃ target, e.form = .link target
      · obtain ⟨target, hl⟩ := hl
        exact ⟨_, (hk.link place target).mpr (hlook.trans (congrArg some hl))⟩
      · obtain ⟨g, hg, -⟩ := hk.look hlook (not_exists.mp hl)
        exact ⟨g, hg⟩
    obtain ⟨e', he', -⟩ := Option.map_eq_some_iff.mp hg
    exact ⟨e', .arrived he'⟩
  | skip hd hs _ ih =>
    obtain ⟨e', h⟩ := ih hr
    exact ⟨e', .skip (hk.directory _ hd) hs h⟩
  | up hd _ ih =>
    obtain ⟨e', h⟩ := ih hr
    exact ⟨e', .up (hk.directory _ hd) h⟩
  | vacant => cases hr
  | stay hs hg hl =>
    cases hr
    exact ⟨_, .stay hs ((hk.link _ _).mpr hg) hl⟩
  | link hs hg hl _ ih =>
    obtain ⟨e', h⟩ := ih hr
    exact ⟨e', .link hs ((hk.link _ _).mpr hg) hl h⟩
  | enter hs hg hf _ ih =>
    obtain ⟨e', h⟩ := ih hr
    obtain ⟨g, hg, hf⟩ := hk.look hg hf
    exact ⟨e', .enter hs hg hf h⟩

/-- A path leads where it led. -/
theorem Keeps.leadsTo (hk : Keeps fs gs) (h : fs.LeadsTo p place) : gs.LeadsTo p place := by
  obtain ⟨e, h⟩ := h
  obtain ⟨e', hl⟩ := (leads_of_locate h).keeps rfl hk
  exact ⟨e', locate_eq_ok h (by rwa [start_congr hk.here])⟩

theorem ChangesOnly.refl (ps : List Path) (fs : FileSystem) : ChangesOnly ps fs fs where
  toKeeps := .refl fs
  unwritten _ _ _ h := .inl h

theorem ChangesOnly.trans (h₁ : ChangesOnly ps fs gs) (h₂ : ChangesOnly ps gs hs) :
    ChangesOnly ps fs hs where
  toKeeps := h₁.toKeeps.trans h₂.toKeeps
  unwritten place content t h := by
    rcases h₂.unwritten place content t h with h | h
    · rcases h₁.unwritten place content t h with h | ⟨p, hp, hl⟩
      · exact .inl h
      · exact .inr ⟨p, hp, h₂.leadsTo hl⟩
    · exact .inr h

/-- What changes only some files changes only these and more. -/
theorem ChangesOnly.mono (h : ChangesOnly ps fs gs) (hps : ps ⊆ qs) : ChangesOnly qs fs gs where
  toKeeps := h.toKeeps
  unwritten place content t hf :=
    (h.unwritten place content t hf).imp_right fun ⟨p, hp, hl⟩ => ⟨p, hps hp, hl⟩

/-- A file at a place that no written path leads to is as it was. -/
theorem ChangesOnly.look_file_iff (h : ChangesOnly ps fs gs) (hp : ∀ p ∈ ps, ¬gs.LeadsTo p place)
    (content : ByteArray) (t : Timestamp) :
    gs.root.look place = some (.file content t) ↔ fs.root.look place = some (.file content t) := by
  have old {content : ByteArray} {t : Timestamp} (hg : gs.root.look place = some (.file content t)) :
      fs.root.look place = some (.file content t) :=
    (h.unwritten place content t hg).resolve_right fun ⟨p, hm, hl⟩ => hp p hm hl
  refine ⟨old, fun hf => ?_⟩
  obtain ⟨content', t', hg⟩ := h.file place content t hf
  rw [hg, ← old hg, hf]

/-! ## One change -/

/-- A file takes the place of a file, or of nothing. -/
structure Puts (fs gs : FileSystem) (place : List String) (content : ByteArray) (t : Timestamp) :
    Prop where
  here : gs.here = fs.here
  room : gs.room = fs.room
  ordered : fs.root.Ordered → gs.root.Ordered
  look : ∀ q, gs.root.look q = if q = place then some (.file content t) else fs.root.look q
  old : fs.root.look place = none ∨ ∃ content t, fs.root.look place = some (.file content t)

namespace Puts

variable {content : ByteArray} {t : Timestamp} (h : Puts fs gs place content t)

include h

/-- A change is seen at its own place. -/
theorem look_self : gs.root.look place = some (.file content t) := by
  rw [h.look, if_pos rfl]

theorem look_of_ne {q : List String} (hq : q ≠ place) : gs.root.look q = fs.root.look q := by
  rw [h.look, if_neg hq]

/-- A changed file keeps every directory, every link and the way to them. -/
theorem keeps : Keeps fs gs where
  here := h.here
  room := h.room
  ordered := h.ordered
  directory q hq := by
    rw [h.look_of_ne, hq]
    rintro rfl
    rcases h.old with hold | ⟨_, _, hold⟩ <;> cases hold.symm.trans hq
  link q target := by
    by_cases he : q = place
    · subst he
      rw [h.look_self]
      rcases h.old with hold | ⟨_, _, hold⟩ <;> simp [hold]
    · rw [h.look_of_ne he]
  file q content' t' hq := by
    by_cases he : q = place
    · exact ⟨content, t, he ▸ h.look_self⟩
    · exact ⟨content', t', by rw [h.look_of_ne he, hq]⟩

theorem changesOnly (hp : gs.LeadsTo p place) : ChangesOnly [p] fs gs where
  toKeeps := h.keeps
  unwritten q content' t' hq := by
    by_cases he : q = place
    · exact .inr ⟨p, List.mem_singleton_self p, he ▸ hp⟩
    · rw [h.look_of_ne he] at hq
      exact .inl hq

/-- A path to a name that is missing leads to the file of that name as soon as there is one. -/
theorem filled {n : Nat} {here segments : List String} {r : Place} {name : String}
    {directory : List String} (hl : Leads fs.root last n here segments r)
    (hr : r = .vacant directory name false) (hp : place = name :: directory) :
    Leads gs.root last n here segments (.found place (.file content t)) := by
  have hnone := (hl.look_of_vacant hr).2
  rw [← hp] at hnone
  have other {q : List String} {f : Form} (hq : fs.root.look q = some f) :
      gs.root.look q = some f := by
    rw [h.look_of_ne, hq]
    rintro rfl
    cases hnone.symm.trans hq
  induction hl with
  | arrived => cases hr
  | stay => cases hr
  | @vacant _ here rest s hd hs hg hrest =>
    obtain rfl : rest = [] := by
      injection hr with _ _ hslash
      simpa using hslash
    cases hr
    subst hp
    exact .enter hs h.look_self (by simp) (.arrived (Directory.look_eq_file_iff.mp h.look_self))
  | skip hd hs _ ih => exact .skip (other hd) hs (ih hr)
  | up hd _ ih => exact .up (other hd) (ih hr)
  | link hs hg hl _ ih => exact .link hs (other hg) hl (ih hr)
  | enter hs hg hf _ ih => exact .enter hs (other hg) hf (ih hr)

end Puts

/-- A directory takes the place of nothing. -/
theorem changesOnly_of_directory {name : String} (hh : gs.here = fs.here)
    (hr : gs.room = fs.room) (ho : fs.root.Ordered → gs.root.Ordered)
    (hlook : ∀ q, gs.root.look q = if q = name :: place then some .directory else fs.root.look q)
    (hold : fs.root.look (name :: place) = none) : ChangesOnly ps fs gs where
  here := hh
  room := hr
  ordered := ho
  directory q hq := by
    rw [hlook]
    split
    · rfl
    · exact hq
  link q target := by
    rw [hlook]
    by_cases he : q = name :: place
    · simp [he, hold]
    · rw [if_neg he]
  file q content t hq := by
    refine ⟨content, t, ?_⟩
    rw [hlook, if_neg, hq]
    rintro rfl
    cases hold.symm.trans hq
  unwritten q content t hq := by
    rw [hlook] at hq
    split at hq
    · cases hq
    · exact .inl hq

end FileSystem

/-! ## Actions -/

namespace Action

variable {ε ε' α β : Type} {ps : List Path}

theorem run_get_bind (f : FileSystem → Action ε α) (fs : FileSystem) :
    ((get : Action ε FileSystem) >>= f).run fs = (f fs).run fs := rfl

theorem run_bind (x : Action ε α) (f : α → Action ε β) (fs : FileSystem) :
    (x >>= f).run fs =
      match x.run fs with
      | (.ok a, gs) => (f a).run gs
      | (.error e, gs) => (.error e, gs) := by
  have hb : (x >>= f).run fs = ExceptT.bindCont f (x.run fs).1 (x.run fs).2 := rfl
  rw [hb]
  rcases x.run fs with ⟨e | a, gs⟩ <;> rfl

theorem run_tryCatch (x : Action ε α) (f : ε → Action ε α) (fs : FileSystem) :
    (tryCatch x f).run fs =
      match x.run fs with
      | (.ok a, gs) => (.ok a, gs)
      | (.error e, gs) => (f e).run gs := by
  simp only [tryCatch, tryCatchThe, MonadExceptOf.tryCatch, ExceptT.tryCatch]
  have hb (g : Except ε α → StateM FileSystem (Except ε α)) :
      (ExceptT.mk ((show StateM FileSystem (Except ε α) from x) >>= g)).run fs =
        g (x.run fs).1 (x.run fs).2 := rfl
  refine (hb _).trans ?_
  rcases x.run fs with ⟨e | a, gs⟩ <;> rfl

theorem run_adapt (x : Action ε α) (f : ε → ε') (fs : FileSystem) :
    (x.adapt f).run fs = ((x.run fs).1.mapError f, (x.run fs).2) := rfl

/-- The action changes no files but those at the given paths, whether it fails or not. -/
def ChangesOnly (ps : List Path) (x : Action ε α) : Prop :=
  ∀ fs, FileSystem.ChangesOnly ps fs (x.run fs).2

theorem ChangesOnly.pure (a : α) : ChangesOnly ps (Pure.pure a : Action ε α) :=
  fun fs => .refl ps fs

theorem ChangesOnly.throw (e : ε) : ChangesOnly ps (throw e : Action ε α) :=
  fun fs => .refl ps fs

theorem ChangesOnly.get : ChangesOnly ps (get : Action ε FileSystem) :=
  fun fs => .refl ps fs

/-- One action after another changes what either changes. -/
theorem ChangesOnly.bind {x : Action ε α} {f : α → Action ε β} (hx : ChangesOnly ps x)
    (hf : ∀ a, ChangesOnly ps (f a)) : ChangesOnly ps (x >>= f) := by
  intro fs
  have h := hx fs
  rw [run_bind]
  rcases hr : x.run fs with ⟨e | a, gs⟩
  · rwa [hr] at h
  · rw [hr] at h
    exact h.trans (hf a gs)

/-- An action with a handler changes what either changes. -/
theorem ChangesOnly.tryCatch {x : Action ε α} {f : ε → Action ε α} (hx : ChangesOnly ps x)
    (hf : ∀ e, ChangesOnly ps (f e)) : ChangesOnly ps (tryCatch x f) := by
  intro fs
  have h := hx fs
  rw [run_tryCatch]
  rcases hr : x.run fs with ⟨e | a, gs⟩
  · rw [hr] at h
    exact h.trans (hf e gs)
  · rwa [hr] at h

theorem ChangesOnly.adapt {x : Action ε α} (hx : ChangesOnly ps x) (f : ε → ε') :
    ChangesOnly ps (x.adapt f) :=
  hx

/-- The errors of the action are of one kind. -/
def Throws (P : ε → Prop) (x : Action ε α) : Prop :=
  ∀ fs e gs, x.run fs = (.error e, gs) → P e

theorem Throws.pure {P : ε → Prop} (a : α) : Throws P (Pure.pure a : Action ε α) :=
  fun _ _ _ h => by cases h

/-- One action after another throws what either throws. -/
theorem Throws.bind {P : ε → Prop} {x : Action ε α} {f : α → Action ε β} (hx : Throws P x)
    (hf : ∀ a, Throws P (f a)) : Throws P (x >>= f) := by
  intro fs e gs h
  rw [run_bind] at h
  rcases hr : x.run fs with ⟨e' | a, hs⟩
  · rw [hr] at h
    exact hx fs e hs (by rw [hr, (Except.error.inj (Prod.mk.inj h).1)])
  · rw [hr] at h
    exact hf a hs e gs h

theorem Throws.adapt {P : ε' → Prop} {f : ε → ε'} (hf : ∀ e, P (f e)) (x : Action ε α) :
    Throws P (x.adapt f) := by
  intro fs e gs h
  rw [run_adapt] at h
  rcases hr : x.run fs with ⟨e' | a, hs⟩
  · rw [hr] at h
    rw [← Except.error.inj (Prod.mk.inj h).1]
    exact hf e'
  · rw [hr] at h
    cases (Prod.mk.inj h).1

end Action

namespace FileSystem

variable {fs gs : FileSystem} {ps : List Path} {p : Path}

/-- How a file is written. -/
theorem run_writeWith (p : Path) (content : ByteArray → ByteArray) (fs : FileSystem) :
    (writeWith p content).run fs =
      match fs.locate true p with
      | .error e => (.error e, fs)
      | .ok (.found place (.file bytes _)) =>
        (.ok (), { fs.change place (some (.file (content bytes) fs.clock)) with
          clock := fs.clock.next })
      | .ok (.found _ _) => (.error .isADirectory, fs)
      | .ok (.vacant directory name endsInSlash) =>
        if endsInSlash then (.error .isADirectory, fs)
        else
          (.ok (), { fs.change (name :: directory) (some (.file (content .empty) fs.clock)) with
            clock := fs.clock.next }) := by
  rw [writeWith, Action.run_get_bind]
  rcases fs.locate true p with e | ⟨place, ⟨bytes, t⟩ | d | target⟩ | ⟨directory, name, slash⟩
  · rfl
  · rfl
  · rfl
  · rfl
  · cases slash <;> rfl

/-- A file that cannot be written leaves everything as it is. -/
theorem eq_of_writeWith_error {content : ByteArray → ByteArray} {e : FileError}
    (h : (writeWith p content).run fs = (.error e, gs)) : gs = fs := by
  rw [run_writeWith] at h
  split at h
  · exact (Prod.mk.inj h).2.symm
  · cases h
  · exact (Prod.mk.inj h).2.symm
  · split at h
    · exact (Prod.mk.inj h).2.symm
    · cases h

/-- What is put in its place when a file takes the place of a file, or of nothing. -/
theorem puts_change {name : String} {place : List String} {content : ByteArray} {t : Timestamp}
    (hh : gs.here = fs.here) (hr : gs.room = fs.room)
    (hroot : gs.root = (fs.change (name :: place) (some (.file content t))).root)
    (hd : fs.root.look place = some .directory)
    (hold : fs.root.look (name :: place) = none ∨
      ∃ content t, fs.root.look (name :: place) = some (.file content t)) :
    Puts fs gs (name :: place) content t where
  here := hh
  room := hr
  ordered := hroot ▸ ordered_change (Entry.ordered_file content t) (name :: place)
  look := by
    rw [hroot]
    refine look_change (Entry.isBare_file content t) hd fun old ho => ?_
    rcases hold with hold | ⟨bytes, t, hold⟩
    · cases (Directory.look_eq_none_iff.mp hold).symm.trans ho
    · obtain rfl := Option.some.inj ((Directory.look_eq_file_iff.mp hold).symm.trans ho)
      exact Entry.isBare_file bytes t
  old := hold

/-- A file that is there and is written anew stays where it is. -/
theorem of_writeWith_found {content : ByteArray → ByteArray} {place : List String}
    {bytes : ByteArray} {t : Timestamp} (hl : fs.locate true p = .ok (.found place (.file bytes t)))
    (h : (writeWith p content).run fs = (.ok (), gs)) :
    ChangesOnly [p] fs gs ∧
      gs.locate true p = .ok (.found place (.file (content bytes) fs.clock)) := by
  rw [run_writeWith, hl] at h
  have hat := at?_of_locate hl
  have hold := Directory.look_eq_file_iff.mpr hat
  obtain ⟨name, place, rfl⟩ : ∃ name place', place = name :: place' := by
    cases place with
    | nil => cases hat
    | cons name place => exact ⟨name, place, rfl⟩
  have hputs : Puts fs gs (name :: place) (content bytes) fs.clock := by
    rw [← (Prod.mk.inj h).2]
    exact puts_change (here_change fs _ _) (room_change fs _ _) rfl
      (Directory.look_eq_directory_of_cons hold) (.inr ⟨bytes, t, hold⟩)
  obtain ⟨e, he⟩ := hputs.keeps.leadsTo ⟨_, hl⟩
  obtain rfl := Option.some.inj ((at?_of_locate he).symm.trans
    (Directory.look_eq_file_iff.mp hputs.look_self))
  exact ⟨hputs.changesOnly ⟨_, he⟩, he⟩

/-- A file that is written is there with its bytes, and it is the only one written. -/
theorem of_writeWith_ok {content : ByteArray → ByteArray}
    (h : (writeWith p content).run fs = (.ok (), gs)) :
    ChangesOnly [p] fs gs ∧ ∃ place bytes t,
      gs.locate true p = .ok (.found place (.file (content bytes) t)) := by
  have hrun := h
  rw [run_writeWith] at h
  split at h
  · cases h
  · rename_i place bytes t hl
    obtain ⟨honly, he⟩ := of_writeWith_found hl hrun
    exact ⟨honly, place, bytes, _, he⟩
  · cases h
  · rename_i directory name slash hl
    split at h
    · cases h
    · rename_i hslash
      obtain ⟨hd, hnone⟩ := (leads_of_locate hl).look_of_vacant rfl
      have hputs : Puts fs gs (name :: directory) (content .empty) fs.clock := by
        rw [← (Prod.mk.inj h).2]
        exact puts_change (here_change fs _ _) (room_change fs _ _) rfl hd (.inl hnone)
      have hg := hputs.filled (leads_of_locate hl) (by simpa using hslash) rfl
      rw [← start_congr hputs.here] at hg
      have he := locate_eq_ok hl hg
      exact ⟨hputs.changesOnly ⟨_, he⟩, _, .empty, _, he⟩

/-- A write that follows its path changes only the file there, whether it ends well or not. -/
theorem changesOnly_writeWith (p : Path) (content : ByteArray → ByteArray) :
    Action.ChangesOnly [p] (writeWith p content) := by
  intro fs
  rcases h : (writeWith p content).run fs with ⟨e | _, gs⟩
  · rw [eq_of_writeWith_error h]
    exact .refl [p] fs
  · exact (of_writeWith_ok h).1

/-! ## Room -/

/-- There is room for whatever is written. -/
def Unlimited (fs : FileSystem) : Prop := ∀ place, fs.room place = none

theorem fitting_eq_size (h : fs.Unlimited) (p : Path) (bytes : ByteArray) :
    fs.fitting p bytes = bytes.size := by
  have behind (place : List String) (size n : Nat) : fs.roomBehind place size n = n := by
    rw [roomBehind, h]
  unfold fitting
  split
  · exact behind _ _ _
  · exact behind _ _ _
  · rfl

theorem roomBehind_le (fs : FileSystem) (place : List String) (size n : Nat) :
    fs.roomBehind place size n ≤ n := by
  unfold roomBehind
  split
  · exact Nat.min_le_left _ _
  · exact Nat.le_refl _

theorem fitting_le_size (fs : FileSystem) (p : Path) (bytes : ByteArray) :
    fs.fitting p bytes ≤ bytes.size := by
  unfold fitting
  split
  · exact roomBehind_le _ _ _ _
  · exact roomBehind_le _ _ _ _
  · exact Nat.le_refl _

/-- Bytes are written as far as there is room. -/
theorem run_append (p : Path) (bytes : ByteArray) (fs : FileSystem) :
    (append p bytes).run fs =
      match (writeWith p (· ++ bytes.extract 0 (fs.fitting p bytes))).run fs with
      | (.error e, gs) => (.error e, gs)
      | (.ok (), gs) =>
        if fs.fitting p bytes < bytes.size then (.error .noSpace, gs) else (.ok (), gs) := by
  rw [append, Action.run_get_bind, Action.run_bind]
  rcases (writeWith p (· ++ bytes.extract 0 (fs.fitting p bytes))).run fs with ⟨e | ⟨⟩, gs⟩
  · rfl
  · by_cases h : fs.fitting p bytes < bytes.size
    · simp only [h, if_true]
      rfl
    · simp only [h, if_false]
      rfl

/-- Bytes that are written without an error are written all. -/
theorem of_append_ok {bytes : ByteArray} (h : (append p bytes).run fs = (.ok (), gs)) :
    (writeWith p (· ++ bytes)).run fs = (.ok (), gs) := by
  rw [run_append] at h
  rcases hw : (writeWith p (· ++ bytes.extract 0 (fs.fitting p bytes))).run fs with ⟨e | ⟨⟩, hs⟩
  · rw [hw] at h
    cases h
  rw [hw] at h
  dsimp only at h
  split at h
  · cases h
  · rename_i hn
    have hall : fs.fitting p bytes = bytes.size :=
      Nat.le_antisymm (fs.fitting_le_size p bytes) (Nat.not_lt.mp hn)
    rwa [hall, ByteArray.extract_zero_size, h] at hw

/-- Bytes that cannot be written all to a file that is there are written in part. -/
theorem of_append_error {bytes old : ByteArray} {place : List String} {t : Timestamp} {e : FileError}
    (hl : fs.locate true p = .ok (.found place (.file old t)))
    (h : (append p bytes).run fs = (.error e, gs)) :
    ∃ n < bytes.size, (writeWith p (· ++ bytes.extract 0 n)).run fs = (.ok (), gs) := by
  rw [run_append] at h
  rcases hw : (writeWith p (· ++ bytes.extract 0 (fs.fitting p bytes))).run fs with ⟨e' | ⟨⟩, hs⟩
  · rw [run_writeWith, hl] at hw
    cases hw
  rw [hw] at h
  dsimp only at h
  split at h
  · rename_i hn
    exact ⟨_, hn, by rw [hw, (Prod.mk.inj h).2]⟩
  · cases h

/-- Where there is room, all bytes are written. -/
theorem run_append_of_unlimited (h : fs.Unlimited) (p : Path) (bytes : ByteArray) :
    (append p bytes).run fs = (writeWith p (· ++ bytes)).run fs := by
  rw [run_append, fitting_eq_size h, ByteArray.extract_zero_size]
  rcases (writeWith p (· ++ bytes)).run fs with ⟨e | ⟨⟩, gs⟩
  · rfl
  · exact if_neg (Nat.lt_irrefl _)

/-- Bytes appended change only the file they are appended to, also when the room runs out. -/
theorem changesOnly_append (p : Path) (bytes : ByteArray) : Action.ChangesOnly [p] (append p bytes) :=
  Action.ChangesOnly.bind .get fun _ =>
    (changesOnly_writeWith p _).bind fun _ => by
      split
      · exact .throw _
      · exact .pure ()

theorem changesOnly_write (p : Path) (content : ByteArray) :
    Action.ChangesOnly [p] (write p content) :=
  (changesOnly_writeWith p _).bind fun _ => changesOnly_append p content

/-- A file is emptied first, and then its bytes are written. -/
theorem run_write (p : Path) (content : ByteArray) (fs : FileSystem) :
    (write p content).run fs =
      match (create p).run fs with
      | (.error e, gs) => (.error e, gs)
      | (.ok (), gs) => (append p content).run gs := by
  rw [write, Action.run_bind]
  rcases (create p).run fs with ⟨e | ⟨⟩, gs⟩ <;> rfl

theorem found_of_create_ok (h : (create p).run fs = (.ok (), gs)) :
    ∃ place t, gs.locate true p = .ok (.found place (.file .empty t)) := by
  obtain ⟨-, place, -, t, hl⟩ := of_writeWith_ok h
  exact ⟨place, t, hl⟩

/-- A file that is written holds its bytes. -/
theorem found_of_write_ok {content : ByteArray} (h : (write p content).run fs = (.ok (), gs)) :
    ∃ place t, gs.locate true p = .ok (.found place (.file content t)) := by
  rw [run_write] at h
  rcases hc : (create p).run fs with ⟨e | ⟨⟩, hs⟩
  · rw [hc] at h
    cases h
  · rw [hc] at h
    obtain ⟨place, t, hl⟩ := found_of_create_ok hc
    obtain ⟨-, he⟩ := of_writeWith_found hl (of_append_ok h)
    exact ⟨place, _, by rwa [ByteArray.empty_append] at he⟩

/-- A file that cannot be written is left alone, or it holds a beginning of its bytes. -/
theorem of_write_error {content : ByteArray} {e : FileError}
    (h : (write p content).run fs = (.error e, gs)) :
    gs = fs ∨ ∃ n < content.size, ∃ place t,
      gs.locate true p = .ok (.found place (.file (content.extract 0 n) t)) := by
  rw [run_write] at h
  rcases hc : (create p).run fs with ⟨e' | ⟨⟩, hs⟩
  · rw [hc] at h
    rw [← (Prod.mk.inj h).2]
    exact .inl (eq_of_writeWith_error hc)
  rw [hc] at h
  obtain ⟨place, t, hl⟩ := found_of_create_ok hc
  obtain ⟨n, hn, hw⟩ := of_append_error hl h
  obtain ⟨-, he⟩ := of_writeWith_found hl hw
  exact .inr ⟨n, hn, place, _, by rwa [ByteArray.empty_append] at he⟩

/-! ## Directories -/

/-- A directory made anew changes no file. -/
theorem changesOnly_makeDirectory (p : Path) : Action.ChangesOnly ps (makeDirectory p) := by
  intro fs
  rw [makeDirectory, Action.run_get_bind]
  rcases h : fs.locate false (withoutSlashes p) with e | ⟨place, e⟩ | ⟨directory, name, slash⟩
  · exact .refl ps fs
  · exact .refl ps fs
  · obtain ⟨hd, hnone⟩ := (leads_of_locate h).look_of_vacant rfl
    refine changesOnly_of_directory (here_change fs _ _) (room_change fs _ _) (ordered_change Entry.ordered_empty _)
      (look_change Entry.isBare_empty hd ?_) hnone
    intro old ho
    cases (Directory.look_eq_none_iff.mp hnone).symm.trans ho

theorem changesOnly_unless_hasDirectory (p : Path) (e : FileError) :
    Action.ChangesOnly ps
      (do unless (← get).hasDirectory p do throw e : Action FileError Unit) := by
  refine Action.ChangesOnly.bind .get fun _ => ?_
  split
  · exact .pure ()
  · exact .throw e

theorem changesOnly_makeFirst : ∀ dirs : List Path, Action.ChangesOnly ps (makeFirst dirs)
  | [] => .pure ()
  | p :: parents => by
    rw [makeFirst]
    split
    · exact .pure ()
    · refine (changesOnly_makeDirectory p).tryCatch fun e => ?_
      split
      · refine (changesOnly_makeFirst parents).bind fun _ => ?_
        exact (changesOnly_makeDirectory p).tryCatch fun e => changesOnly_unless_hasDirectory p e
      · exact changesOnly_unless_hasDirectory p e

/-- Making directories changes no file. -/
theorem changesOnly_makeParent (p : Path) : Action.ChangesOnly ps (makeParent p) := by
  unfold makeParent
  split
  · split
    · exact .pure ()
    · exact (changesOnly_makeFirst _).adapt _
  · exact .pure ()

/-- Opening a file makes it where it was missing, and changes no other. -/
theorem changesOnly_openFile (p : Path) : Action.ChangesOnly [p] (openFile p) := by
  refine Action.ChangesOnly.bind .get fun _ => ?_
  split
  · exact .pure ()
  · exact changesOnly_writeWith p _

theorem changesOnly_print {ε : Type} (text : String) :
    Action.ChangesOnly ps (print text : Action ε Unit) :=
  fun _ => {
    here := rfl
    room := rfl
    ordered := fun h => h
    directory := fun _ h => h
    link := fun _ _ => Iff.rfl
    file := fun _ content t h => ⟨content, t, h⟩
    unwritten := fun _ _ _ h => .inl h }

end FileSystem

end ArchiveLabels
